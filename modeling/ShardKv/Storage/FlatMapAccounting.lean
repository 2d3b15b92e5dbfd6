import ShardKv.Storage.FlatMapRead

/-!
# The counters of the flat map are exact

`Accounted` ties the three counters to sums over the stored entries and keeps
the two tables disjoint. Every operation is a sequence of changes of the tables
at one key; each of them keeps the invariant when its counters move by the
weights of what the key has before and after.
-/
namespace ShardKv

open FinMap

/-- One when there is a deadline. -/
def deadlineCount (expireAtMs : Option ℕ) : ℕ := if expireAtMs.isSome then 1 else 0

namespace FlatMap

structure Accounted (map : FlatMap) : Prop where
  stored : map.storedBytes =
    tally FlatEntry.storedBytes map.entries + tally RemoteEntry.storedBytes map.remoteEntries
  ttl : map.ttlEntries = tally (fun _ entry => deadlineCount entry.expireAtMs) map.entries +
      tally (fun _ remote => deadlineCount remote.expireAtMs) map.remoteEntries
  remoteValues : map.remoteValueBytes = tally (fun _ remote => remote.object.len) map.remoteEntries
  disjoint : ∀ key, map.entries.lookup key = none ∨ map.remoteEntries.lookup key = none

namespace Accounted

variable {map map' : FlatMap} {key : Bytes} {entry entry' : FlatEntry}
  {remote remote' : RemoteEntry}

section

variable (h : Accounted map)
include h

theorem remote_none (hkey : map.entries.lookup key = some entry) :
    map.remoteEntries.lookup key = none :=
  (h.disjoint key).resolve_left (by simp [hkey])

theorem resident_none (hkey : map.remoteEntries.lookup key = some remote) :
    map.entries.lookup key = none :=
  (h.disjoint key).resolve_right (by simp [hkey])

theorem entry_le (hkey : map.entries.lookup key = some entry) :
    entry.storedBytes key ≤ map.storedBytes ∧ deadlineCount entry.expireAtMs ≤ map.ttlEntries := by
  have hstored := weight_le_tally (w := FlatEntry.storedBytes) hkey
  have httl := weight_le_tally (w := fun _ entry => deadlineCount entry.expireAtMs) hkey
  rw [h.stored, h.ttl]
  omega

theorem remote_le (hkey : map.remoteEntries.lookup key = some remote) :
    remote.storedBytes key ≤ map.storedBytes ∧ deadlineCount remote.expireAtMs ≤ map.ttlEntries ∧
      remote.object.len ≤ map.remoteValueBytes := by
  have hstored := weight_le_tally (w := RemoteEntry.storedBytes) hkey
  have httl := weight_le_tally (w := fun _ remote => deadlineCount remote.expireAtMs) hkey
  have hvalues := weight_le_tally (w := fun _ remote => remote.object.len) hkey
  rw [h.stored, h.ttl, h.remoteValues]
  omega

/-- Fields other than the tables and the counters do not matter. -/
theorem congr (hentries : map'.entries = map.entries)
    (hremotes : map'.remoteEntries = map.remoteEntries)
    (hstored : map'.storedBytes = map.storedBytes) (httl : map'.ttlEntries = map.ttlEntries)
    (hvalues : map'.remoteValueBytes = map.remoteValueBytes) : Accounted map' := by
  constructor
  · rw [hstored, hentries, hremotes, h.stored]
  · rw [httl, hentries, hremotes, h.ttl]
  · rw [hvalues, hremotes, h.remoteValues]
  · rw [hentries, hremotes]
    exact h.disjoint

/-- The tables change at one key, and the counters by the weights of what it has before and
after. -/
theorem change (key : Bytes) (entry : Option FlatEntry) (remote : Option RemoteEntry)
    (hentries : map'.entries = map.entries.put key entry)
    (hremotes : map'.remoteEntries = map.remoteEntries.put key remote)
    (hone : entry = none ∨ remote = none)
    (hstored : map'.storedBytes + ((map.entries.lookup key).elim 0 (FlatEntry.storedBytes key) +
        (map.remoteEntries.lookup key).elim 0 (RemoteEntry.storedBytes key)) = map.storedBytes +
      (entry.elim 0 (FlatEntry.storedBytes key) + remote.elim 0 (RemoteEntry.storedBytes key)))
    (httl : map'.ttlEntries + ((map.entries.lookup key).elim 0 (deadlineCount ·.expireAtMs) +
        (map.remoteEntries.lookup key).elim 0 (deadlineCount ·.expireAtMs)) = map.ttlEntries +
      (entry.elim 0 (deadlineCount ·.expireAtMs) + remote.elim 0 (deadlineCount ·.expireAtMs)))
    (hvalues : map'.remoteValueBytes + (map.remoteEntries.lookup key).elim 0 (·.object.len) =
      map.remoteValueBytes + remote.elim 0 (·.object.len)) : Accounted map' := by
  constructor
  · have hentry := tally_put (w := FlatEntry.storedBytes) map.entries key entry
    have hremote := tally_put (w := RemoteEntry.storedBytes) map.remoteEntries key remote
    have hbefore := h.stored
    rw [hentries, hremotes]
    omega
  · have hentry := tally_put (w := fun _ entry => deadlineCount entry.expireAtMs) map.entries key
      entry
    have hremote := tally_put (w := fun _ remote => deadlineCount remote.expireAtMs)
      map.remoteEntries key remote
    have hbefore := h.ttl
    rw [hentries, hremotes]
    omega
  · have hremote := tally_put (w := fun _ remote => remote.object.len) map.remoteEntries key remote
    have hbefore := h.remoteValues
    rw [hremotes]
    omega
  · intro other
    rw [hentries, hremotes, lookup_put, lookup_put]
    split_ifs
    · exact hone
    · exact h.disjoint other

theorem rewrite (hkey : map.entries.lookup key = some entry)
    (hentries : map'.entries = map.entries.insert key entry')
    (hremotes : map'.remoteEntries = map.remoteEntries)
    (hstored : map'.storedBytes + entry.storedBytes key = map.storedBytes + entry'.storedBytes key)
    (httl : map'.ttlEntries + deadlineCount entry.expireAtMs = map.ttlEntries +
      deadlineCount entry'.expireAtMs)
    (hvalues : map'.remoteValueBytes = map.remoteValueBytes) : Accounted map' := by
  have hremote := h.remote_none hkey
  apply h.change key (some entry') none hentries
    (hremotes.trans (erase_of_lookup_none hremote).symm) (.inr rfl) <;> rw [hremote]
  · rw [hkey]
    exact hstored
  · rw [hkey]
    exact httl
  · exact hvalues

end
end Accounted

section Operations

variable {map : FlatMap} {key : Bytes} {entry : FlatEntry} (outside : Outside) (nowMs : ℕ)

@[simp] theorem deadlineCount_none : deadlineCount none = 0 := rfl

@[simp] theorem deadlineCount_some (deadline : ℕ) : deadlineCount (some deadline) = 1 := rfl

/-- The counter moves by the difference of the two deadline counts. -/
theorem adjustTtlCount_ttlEntries (map : FlatMap) {before : Option ℕ} (after : Option ℕ)
    (hle : deadlineCount before ≤ map.ttlEntries) :
    (map.adjustTtlCount before.isSome after.isSome).ttlEntries + deadlineCount before =
      map.ttlEntries + deadlineCount after := by
  cases before with
  | none => cases after <;> rfl
  | some =>
    cases after with
    | none =>
      change map.ttlEntries - 1 + 1 = map.ttlEntries + 0
      change 1 ≤ map.ttlEntries at hle
      omega
    | some => rfl

theorem adjustTtlCount_eq (map : FlatMap) (hadTtl hasTtl : Bool) :
    map.adjustTtlCount hadTtl hasTtl =
      { map with ttlEntries := (map.adjustTtlCount hadTtl hasTtl).ttlEntries } := by
  cases hadTtl <;> cases hasTtl <;> rfl

theorem ttl_sub (count : ℕ) (expireAtMs : Option ℕ) :
    (if expireAtMs.isSome then count - 1 else count) = count - deadlineCount expireAtMs := by
  cases expireAtMs <;> rfl

section

variable (map)

theorem deleteRemoteHashed_lookup (key : Bytes) (reason : DeleteReason) :
    (map.deleteRemoteHashed key reason).2.remoteEntries.lookup key = none := by
  unfold deleteRemoteHashed
  cases hkey : map.remoteEntries.lookup key with
  | none => exact hkey
  | some => cases reason <;> exact AList.lookup_erase key map.remoteEntries

theorem storedBytes_replace (before after : ℕ) (hle : before ≤ map.storedBytes) :
    map.storedBytes - before + after + before = map.storedBytes + after := by
  omega

/-- The guarded form of the byte adjustment comes to the same. -/
theorem storedBytes_replace_guarded (before after : ℕ) (hle : before ≤ map.storedBytes) :
    (if before ≠ after then map.storedBytes - before + after else map.storedBytes) + before =
      map.storedBytes + after := by
  split_ifs with hsame
  · exact storedBytes_replace map before after hle
  · rw [not_not.mp hsame]

theorem overwriteNoTtl_lookup (key value : Bytes) :
    ∃ entry, (map.overwriteNoTtl key value).entries.lookup key = some entry := by
  unfold overwriteNoTtl
  cases map.entries.lookup key with
  | none | some entry => exact ⟨_, AList.lookup_insert map.entries⟩

theorem overwriteNoTtl_remoteEntries (key value : Bytes) :
    (map.overwriteNoTtl key value).remoteEntries = map.remoteEntries := by
  unfold overwriteNoTtl
  cases map.entries.lookup key <;> rfl

end

/-- A property that the elementary changes of completions, sweeps and evictions keep. -/
structure Kept (P : FlatMap → Prop) : Prop where
  delete : ∀ {map}, P map → ∀ key reason, P (map.deleteHashedInternal key reason).2
  deleteRemote : ∀ {map}, P map → ∀ key reason, P (map.deleteRemoteHashed key reason).2
  move : ∀ {map key entry object}, P map → map.entries.lookup key = some entry →
    object.len = entry.value.length → P (map.moveToRemote key entry object)
  pending : ∀ {map}, P map → ∀ offloads faults faultBytes, P { map with
    pendingObjectOffloads := offloads
    pendingObjectFaults := faults
    pendingObjectFaultBytes := faultBytes }

namespace Kept

variable {P : FlatMap → Prop} (hkept : Kept P)
include hkept

omit hkept in
theorem foldl {α : Type} {step : FlatMap → α → FlatMap}
    (hstep : ∀ map item, P map → P (step map item))
    (items : List α) : ∀ map, P map → P (items.foldl step map) := by
  induction items with
  | nil => exact fun _ h => h
  | cons item items ih => exact fun map h => ih _ (hstep map item h)

theorem completeOffload (runtime : ObjectOverflowRuntime) (h : P map) :
    P (map.completeOffload outside runtime nowMs key) := by
  unfold FlatMap.completeOffload
  cases map.pendingObjectOffloads.lookup key with
  | none => exact h
  | some pending =>
    dsimp only
    cases outside.pollPutValue pending.ticket with
    | none => exact h
    | some result =>
      have hpopped := hkept.pending h (map.pendingObjectOffloads.erase key) map.pendingObjectFaults
        map.pendingObjectFaultBytes
      cases hkey : map.entries.lookup key with
      | none => cases result <;> simpa only [hkey] using hpopped
      | some =>
        cases result with
        | error =>
          dsimp only
          split_ifs
          · exact hkept.delete hpopped key .evicted
          · exact hpopped
        | ok =>
          dsimp only
          split_ifs with hcurrent
          · exact hkept.move hpopped hkey (congrArg List.length hcurrent.1.symm)
          · exact hpopped

theorem completions (h : P map) : P (map.processObjectOverflowCompletions outside nowMs) := by
  unfold processObjectOverflowCompletions
  split
  · exact hkept.pending h ∅ 0 0
  · exact foldl (fun _ _ hmap => hkept.completeOffload outside nowMs _ hmap) _ _ h

theorem deleteAll (keys : List Bytes) (h : P map) : P (map.deleteAll keys) :=
  foldl (P := P) (fun _ key hmap => hkept.delete hmap key .expired) keys map h

theorem deleteAllRemote (keys : List Bytes) (h : P map) : P (map.deleteAllRemote keys) :=
  foldl (P := P) (fun _ key hmap => hkept.deleteRemote hmap key .expired) keys map h

theorem processMaintenance (h : P map) : P (map.processMaintenance outside nowMs).2 := by
  have hdone := hkept.completions outside nowMs h
  unfold FlatMap.processMaintenance
  dsimp only
  split_ifs
  · exact hdone
  · exact hkept.deleteAllRemote _ (hkept.deleteAll _ hdone)

theorem tryOffloadHashed (h : P map) : P (map.tryOffloadHashed outside key nowMs).2 := by
  unfold FlatMap.tryOffloadHashed
  split
  · exact h
  · split
    next runtime entry _ _ =>
      split_ifs
      · exact h
      · exact h
      · exact h
      · split
        · split <;> exact h
        · exact hkept.pending h _ map.pendingObjectFaults map.pendingObjectFaultBytes
    next => exact h

theorem evictOrOffloadHashed (h : P map) : P (map.evictOrOffloadHashed outside key nowMs).2 := by
  have htried : P (map.tryOffloadHashed outside key nowMs).2 :=
    hkept.tryOffloadHashed outside nowMs h
  unfold FlatMap.evictOrOffloadHashed
  split
  all_goals
    rename_i hattempt
    rw [hattempt] at htried
  · exact htried
  · exact hkept.delete htried key .evicted
  · exact hkept.delete htried key .evicted
  · exact htried
  · exact htried

theorem evictWhileAbove (targetBytes : ℕ) (keys : List Bytes) :
    ∀ map, P map → P (evictWhileAbove outside nowMs targetBytes keys map) := by
  induction keys with
  | nil => exact fun _ h => h
  | cons key keys ih =>
    intro map h
    rw [FlatMap.evictWhileAbove]
    split_ifs
    · exact h
    · exact ih _ (hkept.evictOrOffloadHashed outside nowMs h)

theorem evictToMemoryTarget (targetBytes : ℕ) (h : P map) :
    P (map.evictToMemoryTarget outside nowMs targetBytes) := by
  unfold FlatMap.evictToMemoryTarget
  split_ifs
  · exact h
  · exact hkept.evictWhileAbove outside nowMs targetBytes _ map h

theorem enforceMemoryLimit (h : P map) : P (map.enforceMemoryLimit outside nowMs) := by
  have hdone := hkept.completions outside nowMs h
  unfold FlatMap.enforceMemoryLimit
  dsimp only
  split
  · exact hdone
  · split_ifs
    · exact hdone
    · apply hkept.evictToMemoryTarget
      exact hkept.processMaintenance outside nowMs hdone
    · exact hkept.evictToMemoryTarget outside nowMs _ hdone

end Kept

variable (h : Accounted map)

include h

variable (reason : DeleteReason)

theorem countEviction_accounted : Accounted (map.countEviction reason) := by
  unfold countEviction
  split_ifs
  · exact h.congr rfl rfl rfl rfl rfl
  · exact h

theorem deleteRemoteHashed_accounted :
    Accounted (map.deleteRemoteHashed key reason).2 := by
  unfold deleteRemoteHashed
  cases hkey : map.remoteEntries.lookup key with
  | none => exact h
  | some =>
    obtain ⟨hbytes, hdeadline, hvalues⟩ := h.remote_le hkey
    have hresident := h.resident_none hkey
    apply countEviction_accounted
    refine h.change key none none (erase_of_lookup_none hresident).symm rfl (.inl rfl) ?_ ?_ ?_ <;>
      simp only [hkey, hresident, ttl_sub, Option.elim] <;> omega

theorem removeEntry_accounted (hkey : map.entries.lookup key = some entry) :
    Accounted (map.removeEntry key entry) := by
  obtain ⟨hbytes, hdeadline⟩ := h.entry_le hkey
  have hremote := h.remote_none hkey
  refine h.change key none none rfl (erase_of_lookup_none hremote).symm (.inl rfl) ?_ ?_ ?_ <;>
    simp only [removeEntry, hkey, hremote, ttl_sub, Option.elim] <;> omega

theorem deleteHashedInternal_accounted :
    Accounted (map.deleteHashedInternal key reason).2 := by
  unfold deleteHashedInternal
  cases hkey : map.entries.lookup key with
  | none => exact deleteRemoteHashed_accounted h reason
  | some => exact countEviction_accounted (removeEntry_accounted h hkey) reason

/-- The removed bytes leave the counter, the reference enters it, and the deadline stays. -/
theorem moveToRemote_accounted (hkey : map.entries.lookup key = some entry)
    {object : ObjectValueRef} (hlen : object.len = entry.value.length) :
    Accounted (map.moveToRemote key entry object) := by
  obtain ⟨hbytes, -⟩ := h.entry_le hkey
  have hremote := h.remote_none hkey
  refine h.change key none (some _) rfl rfl (.inl rfl) ?_ ?_ ?_ <;>
    simp only [moveToRemote, hkey, hremote, hlen, Option.elim] <;> omega

omit h in
theorem accounted_kept : Kept Accounted where
  delete h _ reason := deleteHashedInternal_accounted h reason
  deleteRemote h _ reason := deleteRemoteHashed_accounted h reason
  move h hkey hlen := moveToRemote_accounted h hkey hlen
  pending h _ _ _ := h.congr rfl rfl rfl rfl rfl

theorem enforceMemoryLimit_accounted : Accounted (map.enforceMemoryLimit outside nowMs) :=
  accounted_kept.enforceMemoryLimit outside nowMs h

section

variable (hkey : map.entries.lookup key = some entry) (value : Bytes)
include hkey

theorem replaceOccupied_accounted (governance : Option Bytes) (expireAtMs : Option ℕ) :
    Accounted (map.replaceOccupied key entry value governance expireAtMs) := by
  obtain ⟨hbytes, hdeadline⟩ := h.entry_le hkey
  unfold replaceOccupied
  rw [adjustTtlCount_eq]
  exact h.rewrite hkey rfl rfl (storedBytes_replace map _ _ hbytes)
    (adjustTtlCount_ttlEntries _ expireAtMs hdeadline) rfl

theorem overwriteOccupied_accounted
    (expireAtMs : Option ℕ) : Accounted (map.overwriteOccupied key entry value expireAtMs) := by
  obtain ⟨hbytes, hdeadline⟩ := h.entry_le hkey
  refine h.rewrite hkey rfl rfl (storedBytes_replace_guarded map _ _ hbytes) ?_ rfl
  -- The deadline is written whenever there is or was one, so it always ends as requested.
  convert adjustTtlCount_ttlEntries map expireAtMs hdeadline using 2 <;>
    cases hold : entry.expireAtMs <;> cases expireAtMs <;>
    simp [overwriteOccupied, adjustTtlCount, hold, FlatEntry.clearSemanticEmbedding]

theorem overwriteOccupiedNoTtl_accounted : Accounted
    (map.overwriteOccupiedNoTtl key entry value) := by
  have heq : map.overwriteOccupiedNoTtl key entry value =
      map.overwriteOccupied key entry value none := by
    cases hold : entry.expireAtMs <;> simp [overwriteOccupiedNoTtl, overwriteOccupied, hold]
  rw [heq]
  exact overwriteOccupied_accounted h hkey value none

end

theorem insertVacant_accounted (hkey : map.entries.lookup key = none)
    (hremote : map.remoteEntries.lookup key = none) (value : Bytes) (governance : Option Bytes)
    (expireAtMs : Option ℕ) : Accounted (map.insertVacant key value governance expireAtMs) := by
  refine h.change key (some _) none rfl (erase_of_lookup_none hremote).symm (.inr rfl) ?_ ?_ ?_ <;>
    simp only [hkey, hremote, Option.elim]
  · simp only [insertVacant, FlatEntry.storedBytes, FlatEntry.semanticBytes, Option.getD_none]
    omega
  · cases expireAtMs <;> rfl
  · rfl

theorem overwriteNoTtl_accounted (hremote : map.remoteEntries.lookup key = none) (value : Bytes) :
    Accounted (map.overwriteNoTtl key value) := by
  unfold overwriteNoTtl
  cases hkey : map.entries.lookup key with
  | none => exact insertVacant_accounted h hkey hremote value none none
  | some => exact overwriteOccupiedNoTtl_accounted h hkey value

variable (value : Bytes)

theorem setReplacing_accounted (governance : Option Bytes) (expireAtMs : Option ℕ) :
    Accounted (map.setReplacing outside key value governance expireAtMs nowMs) := by
  have hcleared : Accounted (map.deleteRemoteHashed key .explicit).2 :=
    deleteRemoteHashed_accounted h .explicit
  apply enforceMemoryLimit_accounted
  cases hkey : (map.deleteRemoteHashed key .explicit).2.entries.lookup key with
  | none =>
    exact insertVacant_accounted hcleared hkey (deleteRemoteHashed_lookup map key .explicit)
      value governance expireAtMs
  | some => exact replaceOccupied_accounted hcleared hkey value governance expireAtMs

theorem setSliceHashed_accounted (expireAtMs : Option ℕ) :
    Accounted (map.setSliceHashed outside key value expireAtMs nowMs) := by
  have hcleared : Accounted (map.deleteRemoteHashed key .explicit).2 :=
    deleteRemoteHashed_accounted h .explicit
  apply enforceMemoryLimit_accounted
  cases hkey : (map.deleteRemoteHashed key .explicit).2.entries.lookup key with
  | none =>
    exact insertVacant_accounted hcleared hkey (deleteRemoteHashed_lookup map key .explicit)
      value none expireAtMs
  | some => exact overwriteOccupied_accounted hcleared hkey value expireAtMs

theorem setSliceHashedTaggedNoTtlLocal_accounted :
    Accounted (map.setSliceHashedTaggedNoTtlLocal key value) :=
  overwriteNoTtl_accounted (deleteRemoteHashed_accounted h .explicit)
    (deleteRemoteHashed_lookup map key .explicit) value

theorem setSemanticSliceHashedInner_accounted (tokenBytes : ℕ)
    (governance : Option Bytes) (expireAtMs : Option ℕ) :
    Accounted (map.setSemanticSliceHashedInner outside key value tokenBytes governance expireAtMs
      nowMs) := by
  have hset : Accounted (map.setSliceHashed outside key value expireAtMs nowMs) :=
    setSliceHashed_accounted outside nowMs h value expireAtMs
  unfold setSemanticSliceHashedInner
  dsimp only
  cases hkey : (map.setSliceHashed outside key value expireAtMs nowMs).entries.lookup key with
  | none => exact hset
  | some =>
    apply enforceMemoryLimit_accounted
    exact hset.rewrite hkey rfl rfl (storedBytes_replace _ _ _ (hset.entry_le hkey).1) rfl rfl

theorem purgeExpired_accounted : Accounted (map.purgeExpired key nowMs) := by
  unfold purgeExpired
  split
  · exact deleteHashedInternal_accounted h .expired
  · exact h

theorem transformValueHashed_accounted {ρ ε : Type} (clearTtl : Bool)
    (transform : Option Bytes → Except ε (ρ × Bytes)) :
    Accounted (map.transformValueHashed outside key nowMs clearTtl transform).2 := by
  unfold transformValueHashed
  dsimp only
  generalize hpurged : (if map.ttlEntries ≠ 0 then map.purgeExpired key nowMs else map) = purged
  have hfresh : Accounted purged := by
    rw [← hpurged]
    split
    · exact purgeExpired_accounted nowMs h
    · exact h
  have hcleared : Accounted (purged.deleteRemoteHashed key .explicit).2 :=
    deleteRemoteHashed_accounted hfresh .explicit
  have hremote := deleteRemoteHashed_lookup purged key .explicit
  generalize (purged.deleteRemoteHashed key .explicit).2 = cleared at hcleared hremote ⊢
  cases hkey : cleared.entries.lookup key with
  | none =>
    cases transform none with
    | error => exact hcleared
    | ok result =>
      apply enforceMemoryLimit_accounted
      exact insertVacant_accounted hcleared hkey hremote result.2 none none
  | some entry =>
    obtain ⟨hbytes, hdeadline⟩ := hcleared.entry_le hkey
    dsimp only
    cases transform (if entry.isProtected then none else some entry.value) with
    | error => exact hcleared
    | ok =>
      apply enforceMemoryLimit_accounted
      cases clearTtl with
      | false =>
        exact hcleared.rewrite hkey rfl rfl (storedBytes_replace _ _ _ hbytes) rfl rfl
      | true =>
        rw [if_pos rfl, adjustTtlCount_eq]
        exact hcleared.rewrite hkey rfl rfl (storedBytes_replace _ _ _ hbytes)
          (adjustTtlCount_ttlEntries _ none hdeadline) rfl

theorem updateValueHashedNoTtl_accounted (isUnique : Bool) (update : SliceUpdate) :
    Accounted (map.updateValueHashedNoTtl key isUnique update).2 := by
  unfold updateValueHashedNoTtl
  cases hkey : map.entries.lookup key with
  | none => exact h
  | some entry =>
    dsimp only
    split
    · have hsize : FlatEntry.storedBytes key { entry.clearSemanticEmbedding with
          value := update.apply entry.clearSemanticEmbedding.value } =
          entry.clearSemanticEmbedding.storedBytes key := by
        simp only [FlatEntry.storedBytes, update.length_apply]
        rfl
      refine h.rewrite hkey rfl rfl ?_ rfl rfl
      rw [hsize]
      exact storedBytes_replace_guarded map _ _ (h.entry_le hkey).1
    · exact h

theorem setExpiry_accounted (hkey : map.entries.lookup key = some entry) (expireAtMs : Option ℕ) :
    Accounted (adjustTtlCount
      { map with entries := map.entries.insert key { entry with expireAtMs } }
      entry.expireAtMs.isSome expireAtMs.isSome) := by
  rw [adjustTtlCount_eq]
  exact h.rewrite hkey rfl rfl rfl (adjustTtlCount_ttlEntries _ expireAtMs (h.entry_le hkey).2) rfl

theorem setRemoteExpiry_accounted {remote : RemoteEntry}
    (hkey : map.remoteEntries.lookup key = some remote) (expireAtMs : Option ℕ) :
    Accounted (adjustTtlCount
      { map with remoteEntries := map.remoteEntries.insert key { remote with expireAtMs } }
      remote.expireAtMs.isSome expireAtMs.isSome) := by
  rw [adjustTtlCount_eq]
  have hresident := h.resident_none hkey
  refine h.change key none (some _) (erase_of_lookup_none hresident).symm rfl (.inl rfl) ?_ ?_ ?_
    <;> simp only [hkey, hresident, Option.elim, Nat.zero_add]
  · rfl
  · exact adjustTtlCount_ttlEntries _ expireAtMs (h.remote_le hkey).2.1

theorem getValueBytesHashedAndExpire_accounted (expireAtMs : ℕ) :
    Accounted (map.getValueBytesHashedAndExpire key expireAtMs nowMs).2 := by
  unfold getValueBytesHashedAndExpire
  cases hkey : map.entries.lookup key with
  | none => exact h
  | some =>
    dsimp only
    split_ifs
    · exact h
    · exact deleteHashedInternal_accounted h .explicit
    · exact setExpiry_accounted h hkey (some expireAtMs)

theorem expire_accounted (expireAtMs : ℕ) : Accounted (map.expire key expireAtMs nowMs).2 := by
  unfold expire
  split_ifs
  · exact deleteHashedInternal_accounted h .explicit
  · cases hkey : map.entries.lookup key with
    | some => exact setExpiry_accounted h hkey (some expireAtMs)
    | none =>
      cases hremote : map.remoteEntries.lookup key with
      | none => exact h
      | some => exact setRemoteExpiry_accounted h hremote (some expireAtMs)

theorem persist_accounted : Accounted (map.persist key nowMs).2 := by
  unfold persist
  split_ifs
  · exact deleteHashedInternal_accounted h .explicit
  · cases hkey : map.entries.lookup key with
    | some =>
      dsimp only
      split_ifs with hnone
      · exact h
      · have hsome := Option.isSome_iff_ne_none.mpr (by simpa using hnone)
        exact hsome ▸ setExpiry_accounted h hkey none
    | none =>
      cases hremote : map.remoteEntries.lookup key with
      | none => exact h
      | some =>
        dsimp only
        split_ifs with hnone
        · exact h
        · have hsome := Option.isSome_iff_ne_none.mpr (by simpa using hnone)
          exact hsome ▸ setRemoteExpiry_accounted h hremote none

theorem prepareObjectFaultHashed_accounted (allowProtected : Bool) :
    Accounted (map.prepareObjectFaultHashed outside key nowMs allowProtected).2 := by
  have hdone := accounted_kept.completions outside nowMs h
  unfold prepareObjectFaultHashed
  dsimp only
  split
  · split_ifs
    · exact hdone
    · exact hdone
    · exact deleteRemoteHashed_accounted hdone .expired
    · exact hdone
    · exact hdone.congr rfl rfl rfl rfl rfl
  · exact hdone

theorem memoryLimit_accounted (limit : Option ℕ) :
    Accounted { map with memoryLimitBytes := limit } :=
  h.congr rfl rfl rfl rfl rfl

theorem putFetched_accounted (remote : RemoteEntry) :
    Accounted (map.putFetched outside key value remote nowMs) := by
  have hcleared : Accounted (map.deleteRemoteHashed key .explicit).2 :=
    deleteRemoteHashed_accounted h .explicit
  unfold putFetched setBytesHashedWithGovernanceOption
  dsimp only
  -- Lifting the limit and putting it back touches no counter.
  split
  · apply accounted_kept.tryOffloadHashed
    apply memoryLimit_accounted
    apply setReplacing_accounted
    exact memoryLimit_accounted hcleared none
  · apply memoryLimit_accounted
    apply setReplacing_accounted
    exact memoryLimit_accounted hcleared none

theorem finishObjectFault_accounted (plan : ObjectFaultPlan) (result : Except Unit Bytes) :
    Accounted (map.finishObjectFault outside plan result nowMs).2 := by
  have hreleased : Accounted (map.releaseFault plan) := h.congr rfl rfl rfl rfl rfl
  unfold finishObjectFault
  generalize map.releaseFault plan = released at hreleased
  cases result with
  | error => exact hreleased
  | ok value =>
    dsimp only
    cases released.remoteEntries.lookup plan.key with
    | none => exact hreleased
    | some remote =>
      dsimp only
      split_ifs
      · exact hreleased
      · exact deleteRemoteHashed_accounted hreleased .expired
      · exact putFetched_accounted outside nowMs hreleased value remote

omit h in
/-- What is answered for the fetched value does not matter. -/
theorem answered_accounted {ρ : Type} {finished : Except Unit (Option Bytes) × FlatMap}
    (h : Accounted finished.2) (found : Bytes → ρ) (lost : ρ) :
    Accounted (match finished with
      | (.ok (some value), map) => (found value, map)
      | (_, map) => (lost, map)).2 := by
  rcases finished with ⟨_ | _ | _, _⟩ <;> exact h

theorem faultIn_accounted (allowProtected : Bool) :
    Accounted (map.faultIn outside key nowMs allowProtected).2 := by
  have hprepared : Accounted (map.prepareObjectFaultHashed outside key nowMs allowProtected).2 :=
    prepareObjectFaultHashed_accounted outside nowMs h allowProtected
  unfold faultIn
  generalize map.prepareObjectFaultHashed outside key nowMs allowProtected = answer at hprepared ⊢
  rcases answer with ⟨_ | plan, prepared⟩
  · exact hprepared
  · exact answered_accounted (finishObjectFault_accounted outside nowMs hprepared plan _) _ _

theorem removeRemoteValueHashed_accounted :
    Accounted (map.removeRemoteValueHashed outside key nowMs).2 := by
  have hfetched : Accounted (map.faultIn outside key nowMs false).2 :=
    faultIn_accounted outside nowMs h false
  unfold removeRemoteValueHashed
  cases map.remoteEntries.lookup key with
  | none => exact h
  | some =>
    dsimp only
    split_ifs
    · exact deleteRemoteHashed_accounted h .expired
    · exact deleteRemoteHashed_accounted h .explicit
    · generalize map.faultIn outside key nowMs false = answer at hfetched ⊢
      rcases answer with ⟨_ | value, fetched⟩
      · exact hfetched
      · exact deleteHashedInternal_accounted hfetched .explicit

theorem removeValueHashed_accounted : Accounted (map.removeValueHashed outside key nowMs).2 := by
  unfold removeValueHashed
  cases hkey : map.entries.lookup key with
  | none => exact removeRemoteValueHashed_accounted outside nowMs h
  | some =>
    dsimp only
    split
    · exact deleteHashedInternal_accounted h .expired
    · exact removeEntry_accounted h hkey

theorem purgeThen_accounted {α : Type} (missing : α) (read : FlatMap → α) :
    Accounted (map.purgeThen key nowMs missing read).2 := by
  unfold purgeThen
  split
  · exact deleteHashedInternal_accounted h .expired
  · exact h

theorem getRefHashed_accounted : Accounted (map.getRefHashed key nowMs).2 := by
  unfold getRefHashed
  split
  · exact h
  · exact purgeThen_accounted nowMs h _ _

theorem get_accounted : Accounted (map.get outside key nowMs).2 := by
  have hread : Accounted (map.getRefHashed key nowMs).2 := getRefHashed_accounted nowMs h
  unfold get
  generalize map.getRefHashed key nowMs = answer at hread ⊢
  rcases answer with ⟨_ | value, after⟩
  · exact faultIn_accounted outside nowMs hread false
  · exact hread

theorem exists_accounted : Accounted (map.exists key nowMs).2 := by
  unfold FlatMap.exists
  split
  · exact purgeThen_accounted nowMs h _ _
  · exact h

theorem entryExpireAtHashed_accounted : Accounted (map.entryExpireAtHashed key nowMs).2 := by
  unfold entryExpireAtHashed
  split
  · exact h
  · exact purgeThen_accounted nowMs h _ _

theorem entryExpireAtForKeepTtlHashed_accounted :
    Accounted (map.entryExpireAtForKeepTtlHashed key nowMs).2 := by
  unfold entryExpireAtForKeepTtlHashed
  cases map.entries.lookup key with
  | some =>
    dsimp only
    split_ifs
    · exact deleteHashedInternal_accounted h .expired
    · exact h
  | none =>
    cases map.remoteEntries.lookup key with
    | none => exact h
    | some =>
      dsimp only
      split_ifs
      · exact deleteHashedInternal_accounted h .expired
      · exact h

theorem remoteTtl_accounted (seconds : Bool) : Accounted (map.remoteTtl key nowMs seconds).2 := by
  unfold remoteTtl
  cases map.remoteEntries.lookup key with
  | none => exact h
  | some remote =>
    dsimp only
    cases remote.expireAtMs with
    | none => exact h
    | some =>
      dsimp only
      split
      · exact deleteRemoteHashed_accounted h .expired
      · exact h

theorem ttlOf_accounted (seconds : Bool) : Accounted (map.ttlOf key nowMs seconds).2 := by
  unfold ttlOf
  cases map.entries.lookup key with
  | none => exact remoteTtl_accounted nowMs h seconds
  | some entry =>
    dsimp only
    cases entry.expireAtMs with
    | none => exact h
    | some =>
      dsimp only
      split
      · exact deleteHashedInternal_accounted h .expired
      · exact h

variable (authorize : Option Bytes → Bool)

theorem prepareGovernedObjectFaultHashed_accounted :
    Accounted (map.prepareGovernedObjectFaultHashed outside key nowMs authorize).2 := by
  have hdone := accounted_kept.completions outside nowMs h
  unfold prepareGovernedObjectFaultHashed
  generalize map.processObjectOverflowCompletions outside nowMs = done at hdone
  dsimp only
  cases (done.entries.lookup key).filter (fun entry => !entry.isExpired nowMs) with
  | some =>
    dsimp only
    split <;> exact hdone
  | none =>
    cases done.remoteEntries.lookup key with
    | none => exact hdone
    | some =>
      dsimp only
      split_ifs
      · exact deleteRemoteHashed_accounted hdone .expired
      · exact hdone
      · have hprepared : Accounted (done.prepareObjectFaultHashed outside key nowMs true).2 :=
          prepareObjectFaultHashed_accounted outside nowMs hdone true
        generalize done.prepareObjectFaultHashed outside key nowMs true = answer at hprepared ⊢
        rcases answer with ⟨_ | plan, prepared⟩
        · exact hprepared
        · exact hprepared

theorem getValueBytesHashedWithGovernanceFilter_accounted :
    Accounted (map.getValueBytesHashedWithGovernanceFilter outside key nowMs authorize).2 := by
  have hprepared : Accounted (map.prepareGovernedObjectFaultHashed outside key nowMs authorize).2 :=
    prepareGovernedObjectFaultHashed_accounted outside nowMs h authorize
  unfold getValueBytesHashedWithGovernanceFilter
  generalize map.prepareGovernedObjectFaultHashed outside key nowMs authorize = answer
    at hprepared ⊢
  rcases answer with ⟨_ | _ | value | plan, prepared⟩
  · exact hprepared
  · exact hprepared
  · exact hprepared
  · exact answered_accounted (finishObjectFault_accounted outside nowMs hprepared plan _) _ _

theorem configureObjectOverflow_accounted (objectOverflow : Option ObjectOverflowRuntime)
    (sameInstance : Bool) :
    Accounted (map.configureObjectOverflow outside objectOverflow sameInstance nowMs).2 := by
  unfold configureObjectOverflow
  dsimp only
  split_ifs
  · apply enforceMemoryLimit_accounted
    exact h.congr rfl rfl rfl rfl rfl
  · exact h

omit h in
theorem evictFirst_accounted (keys : List Bytes) :
    ∀ map, Accounted map → Accounted (evictFirst outside nowMs keys map).2 := by
  induction keys with
  | nil => exact fun _ h => h
  | cons key keys ih =>
    intro map h
    have hevicted : Accounted (map.evictOrOffloadHashed outside key nowMs).2 :=
      accounted_kept.evictOrOffloadHashed outside nowMs h
    rw [evictFirst]
    generalize map.evictOrOffloadHashed outside key nowMs = answer at hevicted ⊢
    rcases answer with ⟨_ | _, evicted⟩
    · exact ih _ hevicted
    · exact hevicted

end Operations
end FlatMap
end ShardKv
