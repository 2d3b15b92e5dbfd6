import ShardKv.Server.ScnpGet
import ShardKv.Storage.FlatMapVisit
import ShardKv.Storage.OverflowCells

/-!
# Protected values do not interfere

Two flat maps that differ only in protected values whose metadata an operation is not
authorized for give the same answers to that operation.
Each read, visit, transform and removal has its own check; what they have in common
is that they look at an entry through its deadline, its metadata and, unless it is
protected, its value.
-/
namespace ShardKv

open FlatCell Option

/-- An operation that admits some metadata does not see the other protected values. -/
def hiddenFrom (admits : Option Bytes → Bool) (governance : Option Bytes) : Bool :=
  governance.isSome && !admits governance

/-- The same hidden entry with another value. -/
structure FlatEntry.Hides (admits : Option Bytes → Bool) (entry entry' : FlatEntry) : Prop where
  hidden : hiddenFrom admits entry.governance
  expireAtMs : entry'.expireAtMs = entry.expireAtMs
  semanticIndexToken : entry'.semanticIndexToken = entry.semanticIndexToken
  governance : entry'.governance = entry.governance

/-- The same hidden remote entry with another stored object. -/
structure RemoteEntry.Hides (admits : Option Bytes → Bool) (remote remote' : RemoteEntry) :
    Prop where
  hidden : hiddenFrom admits remote.governance
  expireAtMs : remote'.expireAtMs = remote.expireAtMs
  governance : remote'.governance = remote.governance

/-- Equal, or both there with only the hidden part different. -/
inductive SameBut {α : Type} (Hides : α → α → Prop) : Option α → Option α → Prop
  | same (item : Option α) : SameBut Hides item item
  | hidden {item item' : α} (h : Hides item item') : SameBut Hides (some item) (some item')

/-- Two pending puts of a hidden value that end the same way. -/
def PutsAlike (outside outside' : Outside) (entry entry' : FlatEntry) :
    Option PendingObjectOffload → Option PendingObjectOffload → Prop
  | none, none => True
  | some pending, some pending' =>
    (outside.pollPutValue pending.ticket).map Except.toBool =
        (outside'.pollPutValue pending'.ticket).map Except.toBool ∧
      (entry.value = pending.sourceValue ↔ entry'.value = pending'.sourceValue)
  | _, _ => False

/-- What one key has in two maps. The put and the fetch of a value that is not hidden answer
alike. A hidden value has no remote copy beside it, which is how every write of a protected
value leaves the key, or else the puts of the two values end alike. -/
structure FlatCell.PublicEq (admits : Option Bytes → Bool) (outside outside' : Outside)
    (cell cell' : FlatCell) : Prop where
  entry : SameBut (FlatEntry.Hides admits) cell.entry cell'.entry
  remote : SameBut (RemoteEntry.Hides admits) cell.remote cell'.remote
  fetched : ∀ remote, cell.remote = some remote → hiddenFrom admits remote.governance = false →
    outside.getValue remote.object = outside'.getValue remote.object
  pending : ∀ entry, cell.entry = some entry → hiddenFrom admits entry.governance = false →
    cell.pending = cell'.pending ∧ ∀ pending, cell.pending = some pending →
      outside.pollPutValue pending.ticket = outside'.pollPutValue pending.ticket ∧
      ∀ put, outside.pollPutValue pending.ticket = some (.ok put) →
        outside.getValue (put.ref pending.sourceValue) =
          outside'.getValue (put.ref pending.sourceValue)
  hidden : ∀ entry entry', cell.entry = some entry → cell'.entry = some entry' →
    hiddenFrom admits entry.governance → cell.remote = none ∨
      PutsAlike outside outside' entry entry' cell.pending cell'.pending

/-- Two maps, each in its surroundings, that are equal except for hidden values. -/
structure FlatMap.PublicEq (admits : Option Bytes → Bool) (outside outside' : Outside)
    (map map' : FlatMap) : Prop where
  cells : ∀ key, FlatCell.PublicEq admits outside outside' (map.cell key) (map'.cell key)
  keys : map.entries.keys = map'.entries.keys
  remoteKeys : map.remoteEntries.keys = map'.remoteEntries.keys
  ttlEntries : map.ttlEntries = map'.ttlEntries
  memoryLimitBytes : map.memoryLimitBytes = map'.memoryLimitBytes
  objectOverflow : map.objectOverflow = map'.objectOverflow
  pendingObjectFaultBytes : map.pendingObjectFaultBytes = map'.pendingObjectFaultBytes

/-- The remote copy, if it is not hidden. -/
abbrev FlatCell.visibleRemote (admits : Option Bytes → Bool) (cell : FlatCell) :
    Option RemoteEntry :=
  cell.remote.filter fun remote => !hiddenFrom admits remote.governance

section Cells

variable {entry entry' : Option FlatEntry} {remote remote' : Option RemoteEntry}
  {α : Type} {Hides : α → α → Prop} {item item' : Option α} {e e' : FlatEntry}
  {admits : Option Bytes → Bool}

/-- A look that does not see the hidden part. -/
theorem SameBut.map_eq {β : Type} (h : SameBut Hides item item') {look : α → β}
    (hlook : ∀ x x', Hides x x' → look x = look x') : item.map look = item'.map look := by
  cases h with
  | same => rfl
  | hidden hides => rw [map_some, map_some, hlook _ _ hides]

theorem SameBut.any_eq (h : SameBut Hides item item') {look : α → Bool}
    (hlook : ∀ x x', Hides x x' → look x = look x') : item.any look = item'.any look := by
  cases h with
  | same => rfl
  | hidden hides => rw [any_some, any_some, hlook _ _ hides]

theorem isSome_of_hiddenFrom {governance : Option Bytes} (h : hiddenFrom admits governance) :
    governance.isSome :=
  (Bool.and_eq_true_iff.mp h).1

theorem refused_of_hiddenFrom {governance : Option Bytes} (h : hiddenFrom admits governance) :
    admits governance = false :=
  Bool.not_eq_true' _ ▸ (Bool.and_eq_true_iff.mp h).2

theorem FlatEntry.Hides.isProtected (h : e.Hides admits e') :
    e.isProtected = true ∧ e'.isProtected = true := by
  unfold FlatEntry.isProtected
  rw [h.governance]
  exact ⟨isSome_of_hiddenFrom h.hidden, isSome_of_hiddenFrom h.hidden⟩

theorem FlatEntry.Hides.isExpired (h : e.Hides admits e') (nowMs : ℕ) :
    e'.isExpired nowMs = e.isExpired nowMs := by
  unfold FlatEntry.isExpired
  rw [h.expireAtMs]

theorem RemoteEntry.Hides.isProtected {r r' : RemoteEntry} (h : r.Hides admits r') :
    r.isProtected = true ∧ r'.isProtected = true := by
  unfold RemoteEntry.isProtected
  rw [h.governance]
  exact ⟨isSome_of_hiddenFrom h.hidden, isSome_of_hiddenFrom h.hidden⟩

theorem RemoteEntry.Hides.isExpired {r r' : RemoteEntry} (h : r.Hides admits r') (nowMs : ℕ) :
    r'.isExpired nowMs = r.isExpired nowMs := by
  unfold RemoteEntry.isExpired
  rw [h.expireAtMs]

theorem SameBut.filter_eq (h : SameBut Hides item item') {look : α → Bool}
    (hlook : ∀ x x', Hides x x' → look x = true ∧ look x' = true) :
    item.filter (fun x => !look x) = item'.filter (fun x => !look x) := by
  cases h with
  | same => rfl
  | hidden hides => simp [Option.filter, hlook _ _ hides]

theorem SameBut.none_eq (h : SameBut Hides none item) : item = none := by
  cases h
  rfl

theorem SameBut.remote_visible (h : SameBut (RemoteEntry.Hides admits) remote remote') :
    remote.filter (fun r => !hiddenFrom admits r.governance) =
      remote'.filter (fun r => !hiddenFrom admits r.governance) :=
  h.filter_eq fun _ _ hides => ⟨hides.hidden, by rw [hides.governance]; exact hides.hidden⟩

theorem SameBut.entry_of_visible (h : SameBut (FlatEntry.Hides admits) (some e) entry')
    (hvisible : hiddenFrom admits e.governance = false) : entry' = some e := by
  cases h with
  | same => rfl
  | hidden hides => cases hvisible.symm.trans hides.hidden

theorem SameBut.entry_some (h : SameBut (FlatEntry.Hides admits) (some e) entry')
    (hhidden : hiddenFrom admits e.governance) :
    ∃ e', entry' = some e' ∧ hiddenFrom admits e'.governance := by
  cases h with
  | same => exact ⟨e, rfl, hhidden⟩
  | hidden hides => exact ⟨_, rfl, by rw [hides.governance]; exact hhidden⟩

variable {outside outside' : Outside} {cell cell' : FlatCell}

theorem FlatCell.moves_of_no_entry (h : cell.entry = none) (outside : Outside) (nowMs : ℕ) :
    cell.moves outside nowMs = false := by
  unfold moves
  rw [h]
  split
  next heq => cases heq
  next => rfl

theorem PutsAlike.cases {pending pending' : Option PendingObjectOffload}
    (h : PutsAlike outside outside' e e' pending pending') :
    pending = none ∧ pending' = none ∨ ∃ put put', pending = some put ∧ pending' = some put' ∧
      (outside.pollPutValue put.ticket).map Except.toBool =
        (outside'.pollPutValue put'.ticket).map Except.toBool ∧
      (e.value = put.sourceValue ↔ e'.value = put'.sourceValue) := by
  cases pending with
  | none =>
    cases pending' with
    | none => exact .inl ⟨rfl, rfl⟩
    | some => exact h.elim
  | some put =>
    cases pending' with
    | none => exact h.elim
    | some put' => exact .inr ⟨put, put', rfl, rfl, h⟩

/-- The remote copy of a hidden entry is hidden. -/
theorem FlatCell.moved_hidden (hentry : cell.entry = some e)
    (hhidden : hiddenFrom admits e.governance) {nowMs : ℕ}
    (hmoves : cell.moves outside nowMs = true) (runtime : ObjectOverflowRuntime) :
    (cell.completed outside runtime nowMs).visibleRemote admits = none := by
  obtain ⟨e', pending, put, hentry', -, -, hremote⟩ := completed_remote_of_moves hmoves runtime
  rw [hentry] at hentry'
  cases hentry'
  rw [visibleRemote, hremote]
  simp [Option.filter, hhidden]

/-- A hidden entry that stands alone never leaves a visible copy. -/
theorem FlatCell.completed_visible_none (hentry : cell.entry = some e)
    (hhidden : hiddenFrom admits e.governance) (hnone : cell.remote = none)
    (runtime : ObjectOverflowRuntime) (nowMs : ℕ) :
    (cell.completed outside runtime nowMs).visibleRemote admits = none := by
  cases hmoves : cell.moves outside nowMs with
  | false =>
    rw [visibleRemote, completed_remote_of_not_moves hmoves, hnone]
    rfl
  | true => exact moved_hidden hentry hhidden hmoves runtime

/-- A fetch that may not see protected values does not see hidden ones. -/
theorem FlatCell.faultValue_visible (admits : Option Bytes → Bool) (cell : FlatCell) (map : FlatMap)
    (outside : Outside) (runtime : ObjectOverflowRuntime) (nowMs : ℕ) :
    map.faultValue outside runtime nowMs false cell.remote =
      map.faultValue outside runtime nowMs false (cell.visibleRemote admits) := by
  unfold visibleRemote
  cases cell.remote with
  | none => rfl
  | some r =>
    cases hhidden : hiddenFrom admits r.governance with
    | false => simp [Option.filter, hhidden]
    | true =>
      have hprotected : r.isProtected = true := isSome_of_hiddenFrom hhidden
      simp [Option.filter, hhidden, hprotected, FlatMap.faultValue]

/-- A governed read looks at the remote copy only if it is not hidden. -/
theorem FlatCell.governedValue_visible (cell : FlatCell) (map : FlatMap) (outside : Outside)
    (runtime : ObjectOverflowRuntime) (nowMs : ℕ) :
    map.governedValue outside runtime nowMs admits cell =
      match cell.entry.filter (fun e => !e.isExpired nowMs) with
      | some e => if admits e.governance then some e.value else none
      | none => (cell.visibleRemote admits).bind fun r =>
        if admits r.governance then map.faultValue outside runtime nowMs true (some r) else none := by
  unfold FlatMap.governedValue visibleRemote
  cases cell.entry.filter fun e => !e.isExpired nowMs with
  | some e => rfl
  | none =>
    cases cell.remote with
    | none => rfl
    | some r =>
      cases hhidden : hiddenFrom admits r.governance with
      | false => simp [Option.filter, hhidden]
      | true => simp [Option.filter, hhidden, refused_of_hiddenFrom hhidden]

/-- A governed read of a hidden entry that stands alone. -/
theorem FlatCell.governedValue_alone (hentry : cell.entry = some e)
    (hhidden : hiddenFrom admits e.governance) (hnone : cell.remote = none) (map : FlatMap)
    (outside : Outside) (runtime : ObjectOverflowRuntime) (nowMs : ℕ) :
    map.governedValue outside runtime nowMs admits (cell.completed outside runtime nowMs) =
      none := by
  rw [governedValue_visible, completed_visible_none hentry hhidden hnone, completed_entry, hentry]
  have hrefused := refused_of_hiddenFrom hhidden
  cases cell.leaves outside runtime nowMs with
  | true => simp
  | false => cases hlive : e.isExpired nowMs <;> simp [Option.filter, hlive, hrefused]

namespace FlatCell.PublicEq

variable (h : FlatCell.PublicEq admits outside outside' cell cell') (runtime : ObjectOverflowRuntime)
  (nowMs : ℕ)

include h

section

variable (hentry : cell.entry = some e) (hentry' : cell'.entry = some e')
include hentry hentry'

theorem isExpired_alike : e'.isExpired nowMs = e.isExpired nowMs := by
  have hrel := h.entry
  rw [hentry, hentry'] at hrel
  cases hrel with
  | same => rfl
  | hidden hides => exact hides.isExpired nowMs

section

variable (halike : PutsAlike outside outside' e e' cell.pending cell'.pending)
include halike

/-- Puts that end alike replace the remote copy in both maps or in neither. -/
theorem moves_alike : cell.moves outside nowMs = cell'.moves outside' nowMs := by
  have hexpired := h.isExpired_alike nowMs hentry hentry'
  unfold moves
  rw [hentry, hentry']
  rcases halike.cases with ⟨hnone, hnone'⟩ | ⟨put, put', hput, hput', hpoll, hcurrent⟩
  · rw [hnone, hnone']
  · have hany := congrArg (Option.any id) hpoll
    rw [any_map, any_map] at hany
    simp only [id] at hany
    simp [hput, hput', hany, hexpired, hcurrent]

/-- Such puts take the resident entry away in both maps or in neither. -/
theorem leaves_alike : cell.leaves outside runtime nowMs = cell'.leaves outside' runtime nowMs := by
  have hexpired := h.isExpired_alike nowMs hentry hentry'
  unfold leaves
  rw [hentry, hentry']
  rcases halike.cases with ⟨hnone, hnone'⟩ | ⟨put, put', hput, hput', hpoll, hcurrent⟩
  · rw [hnone, hnone']
  · have hany := congrArg (Option.any fun done =>
      if done then !e.isExpired nowMs
      else decide (runtime.failurePolicy = .evictResident)) hpoll
    rw [any_map, any_map] at hany
    simp only [hput, hput', hexpired, hcurrent]
    exact congrArg _ hany

end
end

theorem completed_remote_of_visible
    (hvisible : ∀ e, cell.entry = some e → hiddenFrom admits e.governance = false) :
    (cell.completed outside runtime nowMs).visibleRemote admits =
      (cell'.completed outside' runtime nowMs).visibleRemote admits := by
  have hrel := h.entry
  cases hentry : cell.entry with
  | none =>
    rw [hentry] at hrel
    rw [visibleRemote, visibleRemote, completed_remote_of_not_moves (moves_of_no_entry hentry _ _),
      completed_remote_of_not_moves (moves_of_no_entry hrel.none_eq _ _)]
    exact h.remote.remote_visible
  | some e =>
    rw [hentry] at hrel
    have hentry' := hrel.entry_of_visible (hvisible e hentry)
    obtain ⟨hpending, hpoll⟩ := h.pending e hentry (hvisible e hentry)
    -- entry, put and answer are the same, so the loop does the same on both sides
    cases hcase : cell.pending with
    | none =>
      rw [completed_of_no_pending hcase, completed_of_no_pending (hpending.symm.trans hcase)]
      exact h.remote.remote_visible
    | some pending =>
      have hcase' := hpending.symm.trans hcase
      simp only [completed, hcase, hcase', hentry, hentry', (hpoll pending hcase).1]
      split
      · exact h.remote.remote_visible
      · split
        · split_ifs <;> exact h.remote.remote_visible
        · split_ifs
          · rfl
          · exact h.remote.remote_visible
        · exact h.remote.remote_visible

theorem completed_remote_of_hidden (hentry : cell.entry = some e)
    (hhidden : hiddenFrom admits e.governance) :
    (cell.completed outside runtime nowMs).visibleRemote admits =
      (cell'.completed outside' runtime nowMs).visibleRemote admits := by
  obtain ⟨e', hentry', hhidden'⟩ : ∃ e', cell'.entry = some e' ∧
      hiddenFrom admits e'.governance := by
    have hrel := h.entry
    rw [hentry] at hrel
    exact hrel.entry_some hhidden
  rcases h.hidden e e' hentry hentry' hhidden with hnone | halike
  · have hnone' : cell'.remote = none := by
      have hrel := h.remote
      rw [hnone] at hrel
      exact hrel.none_eq
    rw [completed_visible_none hentry hhidden hnone,
      completed_visible_none hentry' hhidden' hnone']
  · have hsame := h.moves_alike nowMs hentry hentry' halike
    cases hmoves : cell.moves outside nowMs with
    | false =>
      rw [visibleRemote, visibleRemote, completed_remote_of_not_moves hmoves,
        completed_remote_of_not_moves (hsame.symm.trans hmoves)]
      exact h.remote.remote_visible
    | true =>
      rw [moved_hidden hentry hhidden hmoves,
        moved_hidden hentry' hhidden' (hsame.symm.trans hmoves)]

/-- Completions leave the same visible remote entry. -/
theorem completed_remote : (cell.completed outside runtime nowMs).visibleRemote admits =
      (cell'.completed outside' runtime nowMs).visibleRemote admits := by
  by_cases hvisible : ∀ e, cell.entry = some e → hiddenFrom admits e.governance = false
  · exact h.completed_remote_of_visible runtime nowMs hvisible
  · push Not at hvisible
    obtain ⟨e, hentry, hhidden⟩ := hvisible
    exact h.completed_remote_of_hidden runtime nowMs hentry (Bool.ne_false_iff.mp hhidden)

/-- The object of a visible remote entry that is left is the same in both stores. -/
theorem completed_fetched {r : RemoteEntry}
    (hremote : (cell.completed outside runtime nowMs).remote = some r)
    (hvisible : hiddenFrom admits r.governance = false) :
    outside.getValue r.object = outside'.getValue r.object := by
  cases hmoves : cell.moves outside nowMs with
  | false =>
    rw [completed_remote_of_not_moves hmoves] at hremote
    exact h.fetched r hremote hvisible
  | true =>
    obtain ⟨e, pending, put, hentry, hpending, hpoll, hmoved⟩ :=
      completed_remote_of_moves hmoves runtime
    rw [hmoved] at hremote
    cases hremote
    exact ((h.pending e hentry hvisible).2 pending hpending).2 put hpoll

theorem deleted : FlatCell.PublicEq admits outside outside' cell.deleted cell'.deleted := by
  have hentry := h.entry
  cases hcase : cell.entry with
  | none =>
    rw [hcase] at hentry
    simp only [FlatCell.deleted, hcase, hentry.none_eq]
    constructor <;> simp [SameBut.same]
  | some =>
    obtain ⟨e', hcase'⟩ : ∃ e', cell'.entry = some e' := by
      rw [hcase] at hentry
      generalize cell'.entry = entry' at hentry
      cases hentry with
      | same | hidden => exact ⟨_, rfl⟩
    simp only [FlatCell.deleted, hcase, hcase']
    exact ⟨.same none, h.remote, h.fetched, by simp, by simp⟩

/-- The finished puts take the resident entry away in both maps or in neither, unless a
hidden entry stands alone. -/
theorem completed_entry :
    (cell.remote = none ∧ ∃ e, cell.entry = some e ∧ hiddenFrom admits e.governance) ∨
      SameBut (FlatEntry.Hides admits) (cell.completed outside runtime nowMs).entry
        (cell'.completed outside' runtime nowMs).entry := by
  have hrel := h.entry
  rw [FlatCell.completed_entry, FlatCell.completed_entry]
  -- it is enough that both loops agree on whether the entry goes
  have hsame : cell.leaves outside runtime nowMs = cell'.leaves outside' runtime nowMs →
      SameBut (FlatEntry.Hides admits)
        (if cell.leaves outside runtime nowMs then none else cell.entry)
        (if cell'.leaves outside' runtime nowMs then none else cell'.entry) := by
    intro hleaves
    rw [hleaves]
    split_ifs
    · exact .same none
    · exact hrel
  rcases eq_none_or_eq_some cell.entry with hentry | ⟨e, hentry⟩
  · rw [hentry] at hrel
    refine .inr (hsame ?_)
    simp [leaves, hentry, hrel.none_eq]
  · cases hhidden : hiddenFrom admits e.governance with
    | false =>
      refine .inr (hsame ?_)
      rw [hentry] at hrel
      obtain ⟨hpending, hpoll⟩ := h.pending e hentry hhidden
      cases hcase : cell.pending with
      | none => simp [leaves, hcase, hpending.symm.trans hcase]
      | some pending =>
        simp only [leaves, hcase, hpending.symm.trans hcase, hentry,
          hrel.entry_of_visible hhidden, (hpoll pending hcase).1]
    | true =>
      obtain ⟨e', hentry', -⟩ : ∃ e', cell'.entry = some e' ∧ hiddenFrom admits e'.governance := by
        rw [hentry] at hrel
        exact hrel.entry_some hhidden
      rcases h.hidden e e' hentry hentry' hhidden with hnone | halike
      · exact .inl ⟨hnone, e, hentry, hhidden⟩
      · exact .inr (hsame (h.leaves_alike runtime nowMs hentry hentry' halike))

end FlatCell.PublicEq
end Cells

namespace FlatMap

theorem deleteRemote_entries (map : FlatMap) (key : Bytes) (reason : DeleteReason) :
    (map.deleteRemoteHashed key reason).2.entries = map.entries := by
  unfold deleteRemoteHashed
  split
  · rfl
  · cases reason <;> rfl

/-- What a transform answers: it is run on the public value. -/
theorem transform_value {ρ ε : Type} (map : FlatMap) (outside : Outside) (key : Bytes) (nowMs : ℕ)
    (clearTtl : Bool) (transform : Option Bytes → Except ε (ρ × Bytes)) :
    (map.transformValueHashed outside key nowMs clearTtl transform).1 = (transform
        ((if map.ttlEntries ≠ 0 then map.purgeExpired key nowMs else map).lookupRefHashedLazy
          key)).map Prod.fst := by
  unfold transformValueHashed
  generalize (if map.ttlEntries ≠ 0 then map.purgeExpired key nowMs else map) = purged
  simp only [deleteRemote_entries, lookupRefHashedLazy, findReadable]
  cases purged.entries.lookup key with
  | none =>
    simp only [filter_none, map_none]
    cases transform none <;> rfl
  | some entry =>
    have hshown : ((some entry).filter (fun entry => !entry.isProtected)).map (·.value) =
        if entry.isProtected then none else some entry.value := by
      cases hcase : entry.isProtected <;> simp [Option.filter, hcase]
    simp only [hshown]
    cases transform (if entry.isProtected then none else some entry.value) <;> rfl

end FlatMap

namespace FlatMap.PublicEq

variable {admits : Option Bytes → Bool} {outside outside' : Outside} {map map' : FlatMap}
  (h : PublicEq admits outside outside' map map') (key : Bytes) (nowMs : ℕ) {α : Type}

include h

theorem entry :
    SameBut (FlatEntry.Hides admits) (map.entries.lookup key) (map'.entries.lookup key) :=
  (h.cells key).entry

theorem remote : SameBut (RemoteEntry.Hides admits) (map.remoteEntries.lookup key)
      (map'.remoteEntries.lookup key) :=
  (h.cells key).remote

theorem findReadable : map.findReadable key = map'.findReadable key :=
  (h.entry key).filter_eq fun _ _ hides => hides.isProtected

theorem entryIsExpiredHashed :
    map.entryIsExpiredHashed key nowMs = map'.entryIsExpiredHashed key nowMs := by
  have hentry := (h.entry key).any_eq fun _ _ hides => (hides.isExpired nowMs).symm
  have hremote := (h.remote key).any_eq fun _ _ hides => (hides.isExpired nowMs).symm
  unfold FlatMap.entryIsExpiredHashed
  rw [hentry, hremote]

theorem deadline :
    (map.entries.lookup key).map (·.expireAtMs) = (map'.entries.lookup key).map (·.expireAtMs) :=
  (h.entry key).map_eq fun _ _ hides => hides.expireAtMs.symm

theorem residentReadableAt : map.residentReadableAt nowMs = map'.residentReadableAt nowMs := by
  funext key
  refine (h.entry key).any_eq fun _ _ hides => ?_
  simp [hides.isProtected.1, hides.isProtected.2]

theorem remoteReadableAt : map.remoteReadableAt nowMs = map'.remoteReadableAt nowMs := by
  funext key
  refine (h.remote key).any_eq fun _ _ hides => ?_
  simp [hides.isProtected.1, hides.isProtected.2]

theorem getRefHashedSharedNoTtl :
    map.getRefHashedSharedNoTtl key = map'.getRefHashedSharedNoTtl key := by
  unfold FlatMap.getRefHashedSharedNoTtl
  rw [h.findReadable]

theorem getSharedValueBytesHashed :
    map.getSharedValueBytesHashed key nowMs = map'.getSharedValueBytesHashed key nowMs := by
  unfold FlatMap.getSharedValueBytesHashed
  rw [h.findReadable]

theorem getRefHashedShared :
    map.getRefHashedShared key nowMs = map'.getRefHashedShared key nowMs := by
  unfold FlatMap.getRefHashedShared
  rw [h.ttlEntries, h.getRefHashedSharedNoTtl, h.getSharedValueBytesHashed]

theorem withResponseValueBytesHashed (ownerMinLen : ℕ) :
    map.withResponseValueBytesHashed key nowMs ownerMinLen =
      map'.withResponseValueBytesHashed key nowMs ownerMinLen := by
  have hnone : map.hasNoTtlEntries = map'.hasNoTtlEntries := by
    unfold FlatMap.hasNoTtlEntries
    rw [h.ttlEntries]
  simp only [FlatMap.withResponseValueBytesHashed, hnone, h.getRefHashedSharedNoTtl,
    h.getSharedValueBytesHashed, h.getRefHashedShared]

theorem getSharedValueBytesHashedTaggedNoTtl (hashKey : Bytes → ℕ) (hash keyTag keyLen : ℕ) :
    map.getSharedValueBytesHashedTaggedNoTtl hashKey hash keyTag keyLen =
      map'.getSharedValueBytesHashedTaggedNoTtl hashKey hash keyTag keyLen := by
  have hread := funext h.getRefHashedSharedNoTtl
  unfold FlatMap.getSharedValueBytesHashedTaggedNoTtl
  rw [h.keys, hread]

/-- The reads that drop an expired entry on the way. -/
theorem purgeThen (missing : α) {read : FlatMap → α} (hread : read map = read map') :
    (map.purgeThen key nowMs missing read).1 = (map'.purgeThen key nowMs missing read).1 := by
  unfold FlatMap.purgeThen
  rw [h.entryIsExpiredHashed]
  split_ifs
  · rfl
  · exact hread

theorem lookupRefHashedLazy : map.lookupRefHashedLazy key = map'.lookupRefHashedLazy key := by
  unfold FlatMap.lookupRefHashedLazy
  rw [h.findReadable]

theorem getRefHashed : (map.getRefHashed key nowMs).1 = (map'.getRefHashed key nowMs).1 := by
  unfold FlatMap.getRefHashed
  rw [h.ttlEntries]
  split_ifs
  · exact h.lookupRefHashedLazy key
  · exact h.purgeThen key nowMs none (h.lookupRefHashedLazy key)

theorem entryExpireAtHashed :
    (map.entryExpireAtHashed key nowMs).1 = (map'.entryExpireAtHashed key nowMs).1 := by
  unfold FlatMap.entryExpireAtHashed
  rw [h.ttlEntries]
  split_ifs
  · exact h.deadline key
  · exact h.purgeThen key nowMs none (h.deadline key)

theorem containsReadable : map.containsReadable key = map'.containsReadable key := by
  have hremote : (map.remoteEntries.lookup key).any (fun remote => !remote.isProtected) =
      (map'.remoteEntries.lookup key).any (fun remote => !remote.isProtected) :=
    (h.remote key).any_eq fun _ _ hides => by rw [hides.isProtected.1, hides.isProtected.2]
  unfold FlatMap.containsReadable
  rw [h.findReadable, hremote]

theorem «exists» : (map.exists key nowMs).1 = (map'.exists key nowMs).1 := by
  unfold FlatMap.exists
  rw [h.ttlEntries]
  split_ifs
  · exact h.purgeThen key nowMs false (h.containsReadable key)
  · exact h.containsReadable key

theorem isValueProtectedHashed :
    map.isValueProtectedHashed key nowMs = map'.isValueProtectedHashed key nowMs := by
  have hremote : (map.remoteEntries.lookup key).any
        (fun remote => !remote.isExpired nowMs && remote.isProtected) =
      (map'.remoteEntries.lookup key).any
        (fun remote => !remote.isExpired nowMs && remote.isProtected) :=
    (h.remote key).any_eq fun _ _ hides => by
      rw [hides.isExpired, hides.isProtected.1, hides.isProtected.2]
  unfold FlatMap.isValueProtectedHashed
  rw [hremote]
  refine (h.entry key).casesOn (fun _ => rfl) fun hides => ?_
  simp only [Option.filter, hides.isExpired]
  split_ifs <;> simp [hides.isProtected.1, hides.isProtected.2]

theorem entryExpireAtForKeepTtlHashed : (map.entryExpireAtForKeepTtlHashed key nowMs).1 =
      (map'.entryExpireAtForKeepTtlHashed key nowMs).1 := by
  unfold FlatMap.entryExpireAtForKeepTtlHashed
  refine (h.entry key).casesOn (fun entry => ?_) fun hides => ?_
  · cases entry with
    | some =>
      dsimp only
      split_ifs <;> rfl
    | none =>
      refine (h.remote key).casesOn (fun remote => ?_) fun hides => ?_
      · cases remote with
        | none => rfl
        | some =>
          dsimp only
          split_ifs <;> rfl
      · simp only [hides.isExpired, hides.expireAtMs]
        split_ifs <;> rfl
  · simp only [hides.isExpired, hides.expireAtMs]
    split_ifs <;> rfl

theorem remoteTtl (seconds : Bool) :
    (map.remoteTtl key nowMs seconds).1 = (map'.remoteTtl key nowMs seconds).1 := by
  unfold FlatMap.remoteTtl
  refine (h.remote key).casesOn (fun remote => ?_) fun hides => ?_
  · cases remote with
    | none => rfl
    | some =>
      dsimp only
      split
      · rfl
      · split_ifs <;> rfl
  · simp only [hides.expireAtMs]
    split
    · rfl
    · split_ifs <;> rfl

theorem ttlOf (seconds : Bool) :
    (map.ttlOf key nowMs seconds).1 = (map'.ttlOf key nowMs seconds).1 := by
  unfold FlatMap.ttlOf
  refine (h.entry key).casesOn (fun entry => ?_) fun hides => ?_
  · cases entry with
    | none => exact h.remoteTtl key nowMs seconds
    | some =>
      dsimp only
      split
      · rfl
      · split_ifs <;> rfl
  · simp only [hides.expireAtMs]
    split
    · rfl
    · split_ifs <;> rfl

theorem readableEntries : map.readableEntries nowMs = map'.readableEntries nowMs := by
  simp only [FlatMap.readableEntries, h.keys, h.findReadable]

theorem snapshotKeys : map.snapshotKeys nowMs = map'.snapshotKeys nowMs := by
  simp only [FlatMap.snapshotKeys, h.keys, h.remoteKeys, h.residentReadableAt, h.remoteReadableAt]

theorem visitKeys (visit : α → Bytes → Bool × α) (state : α) :
    map.visitKeys nowMs visit state = map'.visitKeys nowMs visit state := by
  simp only [FlatMap.visitKeys, h.keys, h.remoteKeys, h.residentReadableAt, h.remoteReadableAt]

theorem visitEntries (visit : α → Bytes × Bytes × Option ℕ → Bool × α) (state : α) :
    map.visitEntries nowMs visit state = map'.visitEntries nowMs visit state := by
  simp only [FlatMap.visitEntries, h.readableEntries, h.remoteKeys, h.remoteReadableAt]

theorem scanKeysVisit (offset limit visited emitted : ℕ) (visit : α → Bytes → Bool × α) (state : α) :
    map.scanKeysVisit offset limit nowMs visited emitted visit state =
      map'.scanKeysVisit offset limit nowMs visited emitted visit state := by
  simp only [FlatMap.scanKeysVisit, h.keys, h.remoteKeys, h.residentReadableAt, h.remoteReadableAt]

theorem isSome : (map.entries.lookup key).isSome = (map'.entries.lookup key).isSome := by
  have hmap := congrArg Option.isSome (h.deadline key)
  simpa using hmap

theorem remoteDeadline : (map.remoteEntries.lookup key).map (·.expireAtMs) =
      (map'.remoteEntries.lookup key).map (·.expireAtMs) :=
  (h.remote key).map_eq fun _ _ hides => hides.expireAtMs.symm

theorem deleteHashedInternal (reason : DeleteReason) :
    (map.deleteHashedInternal key reason).1 = (map'.deleteHashedInternal key reason).1 := by
  have hremote := congrArg Option.isSome (h.remoteDeadline key)
  rw [isSome_map, isSome_map] at hremote
  rw [(deleteHashedInternal_spec map key reason).flag,
    (deleteHashedInternal_spec map' key reason).flag, h.isSome, hremote]

theorem delete (reason : DeleteReason) :
    PublicEq admits outside outside' (map.deleteHashedInternal key reason).2
      (map'.deleteHashedInternal key reason).2 := by
  have hleft := deleteHashedInternal_spec map key reason
  have hright := deleteHashedInternal_spec map' key reason
  constructor
  · intro other
    rw [hleft.cell, hright.cell]
    split_ifs
    · exact (h.cells key).deleted
    · exact h.cells other
  · rw [hleft.keys, hright.keys, AList.keys_erase, AList.keys_erase, h.keys]
  · rw [hleft.remoteKeys, hright.remoteKeys, AList.keys_erase, AList.keys_erase, h.isSome,
      h.remoteKeys]
  · rw [hleft.ttlEntries, hright.ttlEntries, h.deadline, h.remoteDeadline, h.ttlEntries]
  · rw [hleft.limits.memoryLimitBytes, hright.limits.memoryLimitBytes, h.memoryLimitBytes]
  · rw [hleft.limits.objectOverflow, hright.limits.objectOverflow, h.objectOverflow]
  · rw [hleft.limits.pendingObjectFaultBytes, hright.limits.pendingObjectFaultBytes,
      h.pendingObjectFaultBytes]

theorem canStartObjectFault (valueLen : ℕ) :
    map.canStartObjectFault valueLen = map'.canStartObjectFault valueLen := by
  unfold FlatMap.canStartObjectFault
  rw [h.memoryLimitBytes, h.pendingObjectFaultBytes]

variable (runtime : ObjectOverflowRuntime)

theorem faultValue (allowProtected : Bool) {remote : Option RemoteEntry}
    (hfetched : ∀ r, remote = some r → outside.getValue r.object = outside'.getValue r.object) :
    map.faultValue outside runtime nowMs allowProtected remote =
      map'.faultValue outside' runtime nowMs allowProtected remote := by
  cases remote with
  | none => rfl
  | some r =>
    simp only [FlatMap.faultValue, h.canStartObjectFault, hfetched r rfl]

/-- The visible remote copy that the completions leave is fetched alike. -/
theorem fetchCompleted (allowProtected : Bool) {r : RemoteEntry}
    (hremote : ((map.cell key).completed outside runtime nowMs).visibleRemote admits = some r) :
    map.faultValue outside runtime nowMs allowProtected (some r) =
      map'.faultValue outside' runtime nowMs allowProtected (some r) := by
  obtain ⟨hremote, hvisible⟩ := filter_eq_some_iff.mp hremote
  refine h.faultValue nowMs runtime allowProtected fun r' hr => ?_
  cases hr
  exact (h.cells key).completed_fetched runtime nowMs hremote (by simpa using hvisible)

theorem faultIn :
    (map.faultIn outside key nowMs false).1 = (map'.faultIn outside' key nowMs false).1 := by
  cases hruntime : map.objectOverflow with
  | none => rw [faultIn_none hruntime, faultIn_none (h.objectOverflow.symm.trans hruntime)]
  | some runtime =>
    rw [faultIn_value hruntime, faultIn_value (h.objectOverflow.symm.trans hruntime),
      faultValue_visible admits, faultValue_visible admits _ map',
      ← (h.cells key).completed_remote runtime nowMs]
    cases hremote : ((map.cell key).completed outside runtime nowMs).visibleRemote admits with
    | none => rfl
    | some r => exact h.fetchCompleted key nowMs runtime false hremote

theorem get : (map.get outside key nowMs).1 = (map'.get outside' key nowMs).1 := by
  have hread := h.getRefHashed key nowMs
  have hafter : PublicEq admits outside outside' (map.getRefHashed key nowMs).2
      (map'.getRefHashed key nowMs).2 := by
    simp only [FlatMap.getRefHashed, getRefHashedTtl, FlatMap.purgeThen, h.ttlEntries,
      h.entryIsExpiredHashed]
    split_ifs
    · exact h
    · exact h.delete key .expired
    · exact h
  unfold FlatMap.get
  generalize map.getRefHashed key nowMs = read at hread hafter ⊢
  generalize map'.getRefHashed key nowMs = read' at hread hafter ⊢
  obtain ⟨value, after⟩ := read
  obtain ⟨value', after'⟩ := read'
  cases hread
  cases value with
  | some => rfl
  | none => exact hafter.faultIn key nowMs

theorem purgeExpired :
    PublicEq admits outside outside' (map.purgeExpired key nowMs) (map'.purgeExpired key nowMs) := by
  unfold FlatMap.purgeExpired
  rw [h.entryIsExpiredHashed]
  split_ifs
  · exact h.delete key .expired
  · exact h

theorem transformValueHashed {ρ ε : Type} (clearTtl : Bool)
    (transform : Option Bytes → Except ε (ρ × Bytes)) :
    (map.transformValueHashed outside key nowMs clearTtl transform).1 =
      (map'.transformValueHashed outside' key nowMs clearTtl transform).1 := by
  rw [transform_value, transform_value, h.ttlEntries]
  split_ifs
  · rw [(h.purgeExpired key nowMs).lookupRefHashedLazy]
  · rw [h.lookupRefHashedLazy]

theorem updateValueHashedNoTtl (isUnique : Bool) (update : SliceUpdate) :
    (map.updateValueHashedNoTtl key isUnique update).1 =
      (map'.updateValueHashedNoTtl key isUnique update).1 := by
  unfold FlatMap.updateValueHashedNoTtl
  refine (h.entry key).casesOn (fun entry => ?_) fun hides => ?_
  · cases entry with
    | none => rfl
    | some =>
      dsimp only
      split_ifs <;> rfl
  · simp [hides.isProtected.1, hides.isProtected.2]

theorem getValueBytesHashedAndExpire (expireAtMs : ℕ) :
    (map.getValueBytesHashedAndExpire key expireAtMs nowMs).1 =
      (map'.getValueBytesHashedAndExpire key expireAtMs nowMs).1 := by
  unfold FlatMap.getValueBytesHashedAndExpire
  refine (h.entry key).casesOn (fun entry => ?_) fun hides => ?_
  · cases entry with
    | none => rfl
    | some =>
      dsimp only
      split_ifs <;> rfl
  · simp [hides.isProtected.1, hides.isProtected.2]

theorem removeRemoteValueHashed : (map.removeRemoteValueHashed outside key nowMs).1 =
      (map'.removeRemoteValueHashed outside' key nowMs).1 := by
  have hfault := h.faultIn key nowMs
  unfold FlatMap.removeRemoteValueHashed
  generalize map.faultIn outside key nowMs false = fetched at hfault ⊢
  generalize map'.faultIn outside' key nowMs false = fetched' at hfault ⊢
  obtain ⟨value, after⟩ := fetched
  obtain ⟨value', after'⟩ := fetched'
  cases hfault
  refine (h.remote key).casesOn (fun remote => ?_) fun hides => ?_
  · cases remote with
    | none => rfl
    | some =>
      dsimp only
      split_ifs
      · rfl
      · rfl
      · cases value <;> rfl
  · simp only [hides.isExpired, hides.isProtected.1, hides.isProtected.2]
    split_ifs <;> rfl

theorem removeValueHashed :
    (map.removeValueHashed outside key nowMs).1 = (map'.removeValueHashed outside' key nowMs).1 := by
  unfold FlatMap.removeValueHashed
  refine (h.entry key).casesOn (fun entry => ?_) fun hides => ?_
  · cases entry with
    | none => exact h.removeRemoteValueHashed key nowMs
    | some =>
      dsimp only
      split_ifs <;> rfl
  · simp only [hides.isExpired, hides.isProtected.1, hides.isProtected.2]
    split_ifs <;> rfl

theorem persist : (map.persist key nowMs).1 = (map'.persist key nowMs).1 := by
  have hdeadline := h.deadline key
  have hremote := h.remoteDeadline key
  unfold FlatMap.persist
  rw [h.entryIsExpiredHashed]
  split_ifs
  · rfl
  · generalize map.entries.lookup key = entry at hdeadline ⊢
    generalize map'.entries.lookup key = entry' at hdeadline ⊢
    generalize map.remoteEntries.lookup key = remote at hremote ⊢
    generalize map'.remoteEntries.lookup key = remote' at hremote ⊢
    cases entry <;> cases entry' <;> cases remote <;> cases remote' <;> simp_all <;>
      split_ifs <;> rfl

theorem expire (expireAtMs : ℕ) :
    (map.expire key expireAtMs nowMs).1 = (map'.expire key expireAtMs nowMs).1 := by
  have hdeadline := h.deadline key
  have hremote := h.remoteDeadline key
  unfold FlatMap.expire
  rw [h.entryIsExpiredHashed]
  split_ifs
  · rfl
  · generalize map.entries.lookup key = entry at hdeadline ⊢
    generalize map'.entries.lookup key = entry' at hdeadline ⊢
    generalize map.remoteEntries.lookup key = remote at hremote ⊢
    generalize map'.remoteEntries.lookup key = remote' at hremote ⊢
    cases entry <;> cases entry' <;> cases remote <;> cases remote' <;> simp_all

/-- A governed read without the completion loop. -/
theorem governedRead_of_no_runtime (hruntime : map.objectOverflow = none) :
    (map.getValueBytesHashedWithGovernanceFilter outside key nowMs admits).1.released =
      (map'.getValueBytesHashedWithGovernanceFilter outside' key nowMs admits).1.released := by
  have hentry := h.entry key
  rw [governedRead_released_none hruntime,
    governedRead_released_none (h.objectOverflow.symm.trans hruntime)]
  generalize map.entries.lookup key = entry at hentry ⊢
  generalize map'.entries.lookup key = entry' at hentry ⊢
  cases hentry with
  | same => rfl
  | @hidden item item' hides =>
    have hrefused := refused_of_hiddenFrom hides.hidden
    cases hlive : item.isExpired nowMs <;>
      simp [Option.filter, hides.isExpired, hlive, hides.governance, hrefused]

theorem governedRead :
    (map.getValueBytesHashedWithGovernanceFilter outside key nowMs admits).1.released =
      (map'.getValueBytesHashedWithGovernanceFilter outside' key nowMs admits).1.released := by
  cases hruntime : map.objectOverflow with
  | none => exact h.governedRead_of_no_runtime key nowMs hruntime
  | some runtime =>
    rw [governedRead_released hruntime,
      governedRead_released (h.objectOverflow.symm.trans hruntime)]
    rcases (h.cells key).completed_entry runtime nowMs with ⟨hnone, e, hentry, hhidden⟩ | hsame
    · have hrel := (h.cells key).entry
      have hrelRemote := (h.cells key).remote
      rw [hentry] at hrel
      rw [hnone] at hrelRemote
      obtain ⟨e', hentry', hhidden'⟩ := hrel.entry_some hhidden
      rw [governedValue_alone hentry hhidden hnone,
        governedValue_alone hentry' hhidden' hrelRemote.none_eq]
    · have hfetch := fun r => h.fetchCompleted key nowMs runtime true (r := r)
      rw [governedValue_visible, governedValue_visible,
        ← (h.cells key).completed_remote runtime nowMs]
      generalize ((map.cell key).completed outside runtime nowMs).visibleRemote admits = remote
        at hfetch ⊢
      have hremote : (remote.bind fun r => if admits r.governance then
            map.faultValue outside runtime nowMs true (some r) else none) =
          remote.bind fun r => if admits r.governance then
            map'.faultValue outside' runtime nowMs true (some r) else none := by
        cases remote with
        | none => rfl
        | some r => rw [bind_some, bind_some, hfetch r rfl]
      rw [hremote]
      generalize ((map.cell key).completed outside runtime nowMs).entry = entry at hsame ⊢
      generalize ((map'.cell key).completed outside' runtime nowMs).entry = entry' at hsame ⊢
      cases hsame with
      | same => rfl
      | @hidden item item' hides =>
        have hrefused := refused_of_hiddenFrom hides.hidden
        cases hlive : item.isExpired nowMs <;>
          simp [Option.filter, hides.isExpired, hlive, hides.governance, hrefused]

end FlatMap.PublicEq
end ShardKv
