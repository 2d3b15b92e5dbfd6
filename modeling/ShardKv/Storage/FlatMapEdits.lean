import ShardKv.Storage.FlatMapHistory

/-!
# Edits of one key

Without memory limit and without overflow runtime every operation of the flat map
touches the entry of one key and leaves all others alone. Each operation gets one
lemma that names the entry it leaves.
-/
namespace ShardKv.FlatMap

variable {map map' : FlatMap} {key : Bytes} {entry : FlatEntry} {nowMs : ℕ} {outside : Outside}

/-- No eviction and no offload can happen. -/
structure Quiet (map : FlatMap) : Prop where
  no_remote : map.remoteEntries = ∅
  no_limit : map.memoryLimitBytes = none
  no_overflow : map.objectOverflow = none

/-- One key has another entry now. -/
structure Edits (map map' : FlatMap) (key : Bytes) (entry : Option FlatEntry) : Prop where
  quiet : Quiet map'
  lookup : ∀ other, map'.entries.lookup other =
    if other = key then entry else map.entries.lookup other

namespace Quiet

section

variable (h : Quiet map)
include h

theorem congr (hremote : map'.remoteEntries = map.remoteEntries)
    (hlimit : map'.memoryLimitBytes = map.memoryLimitBytes)
    (hoverflow : map'.objectOverflow = map.objectOverflow) : Quiet map' where
  no_remote := hremote.trans h.no_remote
  no_limit := hlimit.trans h.no_limit
  no_overflow := hoverflow.trans h.no_overflow

theorem remote_lookup (key : Bytes) : map.remoteEntries.lookup key = none := by
  rw [h.no_remote]
  rfl

theorem deleteRemoteHashed_eq (key : Bytes) (reason : DeleteReason) :
    map.deleteRemoteHashed key reason = (false, map) := by
  rw [deleteRemoteHashed, h.remote_lookup key]

/-- Nothing but the bookkeeping of pending work changes. -/
theorem completions (outside : Outside) (nowMs : ℕ) :
    Quiet (map.processObjectOverflowCompletions outside nowMs) ∧
      (map.processObjectOverflowCompletions outside nowMs).entries = map.entries := by
  rw [processObjectOverflowCompletions, h.no_overflow]
  exact ⟨⟨h.no_remote, h.no_limit, rfl⟩, rfl⟩

theorem enforceMemoryLimit (outside : Outside) (nowMs : ℕ) :
    Quiet (map.enforceMemoryLimit outside nowMs) ∧
      (map.enforceMemoryLimit outside nowMs).entries = map.entries := by
  have hdone := h.completions outside nowMs
  unfold FlatMap.enforceMemoryLimit
  dsimp only
  rw [hdone.1.no_limit]
  exact hdone

theorem edits_insert (hentries : map'.entries = map.entries.insert key entry)
    (hremote : map'.remoteEntries = map.remoteEntries)
    (hlimit : map'.memoryLimitBytes = map.memoryLimitBytes)
    (hoverflow : map'.objectOverflow = map.objectOverflow) : Edits map map' key (some entry) where
  quiet := h.congr hremote hlimit hoverflow
  lookup other := by rw [hentries, FinMap.lookup_insert_eq]

theorem edits_self {left : Option FlatEntry} (hkey : map.entries.lookup key = left) :
    Edits map map key left where
  quiet := h
  lookup other := by
    split_ifs with hother
    · rw [hother, hkey]
    · rfl

end
end Quiet

namespace Edits

variable {left : Option FlatEntry}

section

variable (h : Edits map map' key left)
include h

theorem enforced : Edits map (map'.enforceMemoryLimit outside nowMs) key left where
  quiet := (h.quiet.enforceMemoryLimit _ _).1
  lookup other := by rw [(h.quiet.enforceMemoryLimit _ _).2, h.lookup]

theorem lookup_self : map'.entries.lookup key = left := by
  rw [h.lookup, if_pos rfl]

theorem lookup_other {other : Bytes} (hother : other ≠ key) :
    map'.entries.lookup other = map.entries.lookup other := by
  rw [h.lookup, if_neg hother]

/-- A second edit of the key hides the first. -/
theorem trans {map'' : FlatMap} {left' : Option FlatEntry} (h' : Edits map' map'' key left') :
    Edits map map'' key left' where
  quiet := h'.quiet
  lookup other := by
    rw [h'.lookup]
    split_ifs with hkey
    · rfl
    · exact h.lookup_other hkey

end
end Edits

/-- The entry that is left when the deadline of a key is looked at. -/
def unexpired (nowMs : ℕ) (entry : Option FlatEntry) : Option FlatEntry :=
  entry.filter fun entry => !entry.isExpired nowMs

theorem unexpired_some :
    unexpired nowMs (some entry) = if entry.isExpired nowMs then none else some entry := by
  cases hexpired : entry.isExpired nowMs <;> simp [unexpired, Option.filter, hexpired]

theorem unexpired_eq (entry : Option FlatEntry) :
    unexpired nowMs entry = if entry.any (·.isExpired nowMs) then none else entry := by
  cases entry with
  | none => rfl
  | some => exact unexpired_some

theorem Accounted.unexpired_of_no_ttl (haccounted : Accounted map) (hzero : map.ttlEntries = 0) :
    unexpired nowMs (map.entries.lookup key) = map.entries.lookup key := by
  rw [unexpired_eq, (haccounted.not_expired hzero key nowMs).1]
  rfl

/-- What a plain read may answer from an entry. -/
def readableValue (entry : Option FlatEntry) : Option Bytes :=
  (entry.filter fun entry => !entry.isProtected).map (·.value)

/-- The entry a transform leaves. -/
def rewritten {ρ ε : Type} (clearTtl : Bool) (transform : Option Bytes → Except ε (ρ × Bytes))
    (entry : Option FlatEntry) : Option FlatEntry :=
  match transform (readableValue entry) with
  | .error _ => entry
  | .ok (_, value) =>
    some { value, expireAtMs := if clearTtl then none else entry.bind (·.expireAtMs) }

/-- The entry a transform leaves that clears the deadline. -/
def transformed {ρ ε : Type} (transform : Option Bytes → Except ε (ρ × Bytes))
    (entry : Option FlatEntry) : Option FlatEntry :=
  match transform (readableValue entry) with
  | .error _ => entry
  | .ok (_, value) => some { value }

/-- The entry an update in place leaves. -/
def updatedInPlace (isUnique : Bool) (update : SliceUpdate) (entry : FlatEntry) : FlatEntry :=
  if entry.isProtected = false ∧ entry.expireAtMs.isNone = true ∧ isUnique = true then
    { value := update.apply entry.value }
  else entry

/-- A read that answers from the entry it leaves when it has looked at the deadline. -/
structure Looks {α : Type} (map : FlatMap) (key : Bytes) (nowMs : ℕ) (look : Option FlatEntry → α)
    (out : α × FlatMap) : Prop where
  edits : Edits map out.2 key (unexpired nowMs (map.entries.lookup key))
  answer : out.1 = look (unexpired nowMs (map.entries.lookup key))

section Keys

variable (h : Quiet map) (key : Bytes) (nowMs : ℕ) (outside : Outside)

include h

theorem deleteHashedInternal_edits (reason : DeleteReason) :
    Edits map (map.deleteHashedInternal key reason).2 key none := by
  cases hkey : map.entries.lookup key with
  | none =>
    rw [deleteHashedInternal, hkey]
    simp only [h.deleteRemoteHashed_eq]
    exact h.edits_self hkey
  | some entry =>
    rw [deleteHashedInternal, hkey]
    constructor
    · apply h.congr <;> cases reason <;> rfl
    · intro other
      have hentries : ((map.removeEntry key entry).countEviction reason).entries =
          map.entries.erase key := by
        cases reason <;> rfl
      simp only [hentries, FinMap.lookup_erase_eq]

theorem deleteHashed_edits : Edits map (map.deleteHashed key).2 key none :=
  deleteHashedInternal_edits h key .explicit

theorem removeValueHashed_edits : Edits map (map.removeValueHashed outside key nowMs).2 key none := by
  unfold removeValueHashed
  cases hkey : map.entries.lookup key with
  | none =>
    simp only [removeRemoteValueHashed, h.remote_lookup]
    exact h.edits_self hkey
  | some =>
    simp only
    split_ifs
    · exact deleteHashedInternal_edits h key .expired
    all_goals
      exact
        { quiet := h.congr rfl rfl rfl
          lookup := fun other => FinMap.lookup_erase_eq _ _ _ }

theorem entryIsExpiredHashed_eq : map.entryIsExpiredHashed key nowMs =
      (map.entries.lookup key).any (·.isExpired nowMs) := by
  simp [entryIsExpiredHashed, h.remote_lookup]

theorem purgeExpired_edits :
    Edits map (map.purgeExpired key nowMs) key (unexpired nowMs (map.entries.lookup key)) := by
  unfold purgeExpired
  rw [entryIsExpiredHashed_eq h, unexpired_eq]
  split_ifs
  · exact deleteHashedInternal_edits h key .expired
  · exact h.edits_self rfl

theorem purgeThen_spec {α : Type} (look : Option FlatEntry → α) (read : FlatMap → α)
    (hread : read map = look (map.entries.lookup key)) :
    Looks map key nowMs look (map.purgeThen key nowMs (look none) read) := by
  rw [purgeThen, entryIsExpiredHashed_eq h]
  constructor <;> rw [unexpired_eq] <;> split_ifs
  · exact deleteHashedInternal_edits h key .expired
  · exact h.edits_self rfl
  · rfl
  · exact hread

/-- With exact counters the path without deadlines is the path that checks them. -/
theorem getRefHashed_spec (haccounted : Accounted map) :
    Looks map key nowMs readableValue (map.getRefHashed key nowMs) := by
  have hread : map.getRefHashed key nowMs = map.getRefHashedTtl key nowMs := by
    unfold getRefHashed
    split_ifs with hzero
    · exact (haccounted.fastPathsAgree hzero key nowMs).owned
    · rfl
  rw [hread]
  exact purgeThen_spec h key nowMs readableValue (·.lookupRefHashedLazy key) rfl

theorem entryExpireAtHashed_spec (haccounted : Accounted map) :
    Looks map key nowMs (·.map (·.expireAtMs)) (map.entryExpireAtHashed key nowMs) := by
  have hread : map.entryExpireAtHashed key nowMs = map.entryExpireAtHashedTtl key nowMs := by
    unfold entryExpireAtHashed
    split_ifs with hzero
    · exact (haccounted.fastPathsAgree hzero key nowMs).expireAt
    · rfl
  rw [hread]
  exact purgeThen_spec h key nowMs (·.map (·.expireAtMs))
    (fun map => (map.entries.lookup key).map (·.expireAtMs)) rfl

theorem exists_spec (haccounted : Accounted map) :
    Looks map key nowMs (fun entry => (readableValue entry).isSome) (map.exists key nowMs) := by
  have hread : map.exists key nowMs = map.existsTtl key nowMs := by
    unfold FlatMap.exists
    split_ifs with hzero
    · rfl
    · exact (haccounted.fastPathsAgree (not_not.mp hzero) key nowMs).contains
  rw [hread]
  refine purgeThen_spec h key nowMs (fun entry => (readableValue entry).isSome)
    (·.containsReadable key) ?_
  simp [containsReadable, findReadable, readableValue, h.remote_lookup]

theorem entryExpireAtForKeepTtlHashed_spec :
    Looks map key nowMs (·.map (·.expireAtMs)) (map.entryExpireAtForKeepTtlHashed key nowMs) := by
  unfold entryExpireAtForKeepTtlHashed
  cases hkey : map.entries.lookup key with
  | none =>
    simp only [h.remote_lookup]
    exact ⟨h.edits_self (by rw [hkey]; rfl), by rw [hkey]; rfl⟩
  | some entry =>
    constructor <;> simp only [hkey, unexpired_some] <;> split_ifs
    · exact deleteHashedInternal_edits h key .expired
    · exact h.edits_self hkey
    · rfl
    · rfl

theorem completions_edits : Edits map (map.processObjectOverflowCompletions outside nowMs) key
      (map.entries.lookup key) := by
  obtain ⟨hquiet, hentries⟩ := h.completions outside nowMs
  have hself : Edits map map key (map.entries.lookup key) := h.edits_self rfl
  exact ⟨hquiet, fun other => hentries ▸ hself.lookup other⟩

theorem prepareObjectFaultHashed_eq (allowProtected : Bool) :
    map.prepareObjectFaultHashed outside key nowMs allowProtected =
      (none, map.processObjectOverflowCompletions outside nowMs) := by
  unfold prepareObjectFaultHashed
  simp only [(h.completions outside nowMs).1.no_overflow]

theorem get_spec (haccounted : Accounted map) :
    Looks map key nowMs readableValue (map.get outside key nowMs) := by
  obtain ⟨hedits, hvalue⟩ := getRefHashed_spec h key nowMs haccounted
  unfold get
  generalize map.getRefHashed key nowMs = answer at hedits hvalue ⊢
  rcases answer with ⟨_ | value, after⟩
  · have hdone := completions_edits hedits.quiet key nowMs outside
    rw [hedits.lookup_self] at hdone
    simp only [faultIn, prepareObjectFaultHashed_eq hedits.quiet]
    exact ⟨hedits.trans hdone, hvalue⟩
  · exact ⟨hedits, hvalue⟩

theorem ttlOf_edits (seconds : Bool) :
    Edits map (map.ttlOf key nowMs seconds).2 key (unexpired nowMs (map.entries.lookup key)) := by
  unfold ttlOf
  cases hkey : map.entries.lookup key with
  | none =>
    rw [remoteTtl, h.remote_lookup key]
    exact h.edits_self hkey
  | some entry =>
    rw [unexpired_some, FlatEntry.isExpired]
    cases hdeadline : entry.expireAtMs with
    | none => simpa [isExpiredAt, hdeadline] using h.edits_self hkey
    | some deadline =>
      by_cases hpassed : deadline ≤ nowMs
      · simpa [isExpiredAt, hdeadline, hpassed] using deleteHashedInternal_edits h key .expired
      · simpa [isExpiredAt, hdeadline, hpassed] using h.edits_self hkey

variable (value : Bytes)

theorem setReplacing_edits (governance : Option Bytes) (expireAtMs : Option ℕ) :
    Edits map (map.setReplacing outside key value governance expireAtMs nowMs) key
      (some { value, expireAtMs, governance }) := by
  unfold setReplacing
  simp only [h.deleteRemoteHashed_eq]
  apply Edits.enforced
  cases map.entries.lookup key with
  | none => exact h.edits_insert rfl rfl rfl rfl
  | some entry =>
    apply h.edits_insert <;> cases hhad : entry.expireAtMs <;> cases expireAtMs <;>
      simp [replaceOccupied, adjustTtlCount, FlatEntry.clearSemanticEmbedding, hhad]

theorem setSliceHashed_edits (expireAtMs : Option ℕ) :
    Edits map (map.setSliceHashed outside key value expireAtMs nowMs) key
      (some { value, expireAtMs }) := by
  unfold setSliceHashed
  simp only [h.deleteRemoteHashed_eq]
  apply Edits.enforced
  cases map.entries.lookup key with
  | none => exact h.edits_insert rfl rfl rfl rfl
  | some entry =>
    apply h.edits_insert <;> cases hhad : entry.expireAtMs <;> cases expireAtMs <;>
      simp [overwriteOccupied, FlatEntry.clearSemanticEmbedding, hhad]

theorem rewrite_edits {ρ ε : Type} (haccounted : Accounted map) (clearTtl : Bool)
    (transform : Option Bytes → Except ε (ρ × Bytes)) :
    Edits map (map.transformValueHashed outside key nowMs clearTtl transform).2 key
      (rewritten clearTtl transform (unexpired nowMs (map.entries.lookup key))) := by
  have hpurged : Edits map (if map.ttlEntries ≠ 0 then map.purgeExpired key nowMs else map) key
      (unexpired nowMs (map.entries.lookup key)) := by
    split_ifs with hzero
    · exact purgeExpired_edits h key nowMs
    · exact h.edits_self (haccounted.unexpired_of_no_ttl (not_not.mp hzero)).symm
  unfold transformValueHashed
  generalize (if map.ttlEntries ≠ 0 then map.purgeExpired key nowMs else map) = purged at hpurged
  apply hpurged.trans
  have hquiet := hpurged.quiet
  simp only [← hpurged.lookup_self, hquiet.deleteRemoteHashed_eq]
  cases hkey : purged.entries.lookup key with
  | none =>
    simp only [rewritten, readableValue, Option.filter_none, Option.map_none]
    cases hresult : transform none with
    | error => exact hquiet.edits_self hkey
    | ok =>
      apply Edits.enforced
      apply hquiet.edits_insert <;> simp [insertVacant]
  | some entry =>
    have hvisible : readableValue (some entry) =
        if entry.isProtected then none else some entry.value := by
      cases hprotected : entry.isProtected <;> simp [readableValue, hprotected]
    simp only [rewritten, hvisible]
    cases transform (if entry.isProtected then none else some entry.value) with
    | error => exact hquiet.edits_self hkey
    | ok =>
      apply Edits.enforced
      apply hquiet.edits_insert <;> cases clearTtl <;> cases hhad : entry.expireAtMs <;>
        simp [adjustTtlCount, FlatEntry.clearSemanticEmbedding, hhad]

theorem transformValueHashed_edits {ρ ε : Type} (haccounted : Accounted map)
    (transform : Option Bytes → Except ε (ρ × Bytes)) :
    Edits map (map.transformValueHashed outside key nowMs true transform).2 key
      (transformed transform (unexpired nowMs (map.entries.lookup key))) :=
  rewrite_edits h key nowMs outside haccounted true transform

theorem updateValueHashedNoTtl_edits (isUnique : Bool) (update : SliceUpdate) :
    Edits map (map.updateValueHashedNoTtl key isUnique update).2 key
      ((map.entries.lookup key).map (updatedInPlace isUnique update)) := by
  unfold updateValueHashedNoTtl
  cases hkey : map.entries.lookup key with
  | none => exact h.edits_self hkey
  | some entry =>
    by_cases hfits : entry.isProtected = false ∧ entry.expireAtMs.isNone = true ∧ isUnique = true
    · have hnone : entry.expireAtMs = none := Option.isNone_iff_eq_none.mp hfits.2.1
      simp only [if_pos hfits, Option.map_some, updatedInPlace]
      apply h.edits_insert <;> simp [FlatEntry.clearSemanticEmbedding, hnone]
    · simpa only [if_neg hfits, Option.map_some, updatedInPlace] using h.edits_self hkey

theorem setExpiry_edits (entry : FlatEntry) (expireAtMs : Option ℕ) (hadTtl hasTtl : Bool) :
    Edits map (adjustTtlCount
      { map with entries := map.entries.insert key { entry with expireAtMs } } hadTtl hasTtl) key
      (some { entry with expireAtMs }) := by
  rw [adjustTtlCount_eq]
  exact h.edits_insert rfl rfl rfl rfl

theorem expire_spec (expireAtMs : ℕ) : Edits map (map.expire key expireAtMs nowMs).2 key
        ((unexpired nowMs (map.entries.lookup key)).map
          ({ · with expireAtMs := some expireAtMs })) ∧
      (map.expire key expireAtMs nowMs).1 = (unexpired nowMs (map.entries.lookup key)).isSome := by
  unfold expire
  rw [entryIsExpiredHashed_eq h]
  cases hkey : map.entries.lookup key with
  | none =>
    simp only [h.remote_lookup]
    exact ⟨h.edits_self hkey, rfl⟩
  | some entry =>
    rw [Option.any_some, unexpired_some]
    cases entry.isExpired nowMs with
    | true => exact ⟨deleteHashed_edits h key, rfl⟩
    | false => exact ⟨setExpiry_edits h key entry _ _ _, rfl⟩

theorem persist_spec : Edits map (map.persist key nowMs).2 key
        ((unexpired nowMs (map.entries.lookup key)).map ({ · with expireAtMs := none })) ∧
      (map.persist key nowMs).1 =
        (unexpired nowMs (map.entries.lookup key)).any (·.expireAtMs.isSome) := by
  unfold persist
  rw [entryIsExpiredHashed_eq h]
  cases hkey : map.entries.lookup key with
  | none =>
    simp only [h.remote_lookup]
    exact ⟨h.edits_self hkey, rfl⟩
  | some entry =>
    rw [Option.any_some, unexpired_some]
    cases entry.isExpired nowMs with
    | true => exact ⟨deleteHashed_edits h key, rfl⟩
    | false =>
      obtain ⟨value, deadline, token, governance⟩ := entry
      cases deadline with
      | none => exact ⟨h.edits_self hkey, rfl⟩
      | some => exact ⟨setExpiry_edits h key _ none true false, rfl⟩

end Keys

/-- Only the entry of one key may have changed. -/
structure Touches (map map' : FlatMap) (key : Bytes) : Prop where
  quiet : Quiet map'
  other : ∀ other, other ≠ key → map'.entries.lookup other = map.entries.lookup other

theorem Edits.touches {left : Option FlatEntry} (h : Edits map map' key left) :
    Touches map map' key where
  quiet := h.quiet
  other _ hother := h.lookup_other hother

end ShardKv.FlatMap

namespace ShardKv

/-- The key a call is about; fetched values come back under the key of their plan. -/
def FlatMapOp.key : FlatMapOp → Option Bytes
  | .setBytes key _ _ _ | .setHashed key _ _ | .setSlice key _ _ | .setSliceNoTtl key _
  | .setTaggedNoTtlLocal key _ | .setTaggedNoTtlHot key _ | .setSemantic key _ _ _ _
  | .transform key _ _ | .update key _ _ | .getAndExpire key _ | .expire key _ | .persist key
  | .delete key | .removeValue key | .get key | .getRef key | .exists key | .entryExpireAt key
  | .ttl key _ | .governedGet key _ | .prepareFault key _ => some key
  | .finishFault .. | .completions | .maintenance | .evictOne | .configureMemory ..
  | .configureOverflow .. => none

namespace FlatMapCall

open FlatMap
variable {map : FlatMap} {key : Bytes} {call : FlatMapCall}

end FlatMapCall
end ShardKv
