import ShardKv.Foundations.CellReplay
import ShardKv.Persistence.KeyReplay
import ShardKv.Storage.FlatMapEdits

/-!
# A shard seen through one key

On a shard without memory limit and overflow, every turn of the worker acts on
each key on its own: it purges the key's entry when its deadline has passed and
then edits the cell, and the record it logs for the key is that edit. This makes
the worker, key by key, an instance of events on a cell that expires.
-/
namespace ShardKv

/-- Entries live until their deadline. -/
def entryLifetime : Lifetime StoredEntry where
  alive nowMs entry := !isExpiredAt entry.expireAtMs nowMs
  alive_of_later := by
    intro time later entry hle halive
    cases hdeadline : entry.expireAtMs with
    | none => rfl
    | some deadline =>
      simp only [isExpiredAt, hdeadline, Option.any_some, Bool.not_eq_true',
        decide_eq_false_iff_not] at halive ⊢
      omega

def FlatEntry.toStored (key : Bytes) (entry : FlatEntry) : StoredEntry where
  key := key
  value := entry.value
  expireAtMs := entry.expireAtMs
  governance := entry.governance

namespace FlatMap

def view (map : FlatMap) (key : Bytes) : Option StoredEntry :=
  (map.entries.lookup key).map (·.toStored key)

/-- The maps of shards that only their worker writes to. -/
structure Plain (map : FlatMap) : Prop extends Quiet map where
  accounted : Accounted map
  unprotected : ∀ key entry, map.entries.lookup key = some entry → entry.governance = none

/-- One map comes from another by giving one cell a new content. -/
structure Updated (map map' : FlatMap) (key : Bytes) (cell : Option StoredEntry) : Prop where
  plain : Plain map'
  view_self : map'.view key = cell
  view_other : ∀ other, other ≠ key → map'.view other = map.view other

section Plain

variable {map map' : FlatMap} {key : Bytes} {left : Option FlatEntry} (outside : Outside) (nowMs : ℕ)

theorem Edits.view (h : Edits map map' key left) (other : Bytes) :
    map'.view other = if other = key then left.map (·.toStored key) else map.view other := by
  rw [FlatMap.view, FlatMap.view, h.lookup]
  split_ifs with hother
  · rw [hother]
  · rfl

/-- An edit gives the cell of its key the entry that it leaves. -/
theorem Updated.of_edits (h : Plain map) (hedits : Edits map map' key left)
    (haccounted : Accounted map') (hleft : ∀ entry, left = some entry → entry.governance = none) :
    Updated map map' key (left.map (·.toStored key)) where
  plain := by
    refine ⟨hedits.quiet, haccounted, ?_⟩
    intro other entry hother
    rw [hedits.lookup] at hother
    split_ifs at hother
    · exact hleft entry hother
    · exact h.unprotected other entry hother
  view_self := by rw [hedits.view, if_pos rfl]
  view_other other hother := by rw [hedits.view, if_neg hother]

theorem Plain.updated_set (h : Plain map) (value : Bytes) (expireAtMs : Option ℕ) :
    Updated map (map.setBytesHashed outside key value expireAtMs nowMs) key
      (some { key, value, expireAtMs, governance := none }) := by
  refine .of_edits h (setReplacing_edits h.toQuiet key nowMs outside value none expireAtMs)
    (setReplacing_accounted outside nowMs h.accounted value none expireAtMs) ?_
  intro entry hentry
  cases hentry
  rfl

theorem purge_some (entry : StoredEntry) : entryLifetime.purge nowMs (some entry) =
      if isExpiredAt entry.expireAtMs nowMs then none else some entry := by
  cases h : isExpiredAt entry.expireAtMs nowMs <;>
    simp [Lifetime.purge, entryLifetime, Option.filter, h]

/-- The purged cell is what the deadline leaves of the entry. -/
theorem purge_view (map : FlatMap) (key : Bytes) : entryLifetime.purge nowMs (map.view key) =
      (unexpired nowMs (map.entries.lookup key)).map (·.toStored key) := by
  rw [view]
  cases map.entries.lookup key with
  | none => rfl
  | some entry =>
    refine (purge_some nowMs _).trans ?_
    rw [unexpired_some, apply_ite (Option.map _)]
    rfl

theorem Plain.unexpired_unprotected (h : Plain map) (entry : FlatEntry)
    (hentry : unexpired nowMs (map.entries.lookup key) = some entry) : entry.governance = none :=
  h.unprotected key entry (Option.filter_eq_some_iff.mp hentry).1

theorem readableValue_eq (hleft : ∀ entry, left = some entry → entry.governance = none) :
    readableValue left = (left.map (·.toStored key)).map (·.value) := by
  cases left with
  | none => rfl
  | some entry => simp [readableValue, FlatEntry.isProtected, hleft entry rfl, FlatEntry.toStored]

section

variable (h : Plain map) (key : Bytes)
include h

theorem Plain.get_spec :
    (map.get outside key nowMs).1 = (entryLifetime.purge nowMs (map.view key)).map (·.value) ∧
      Updated map (map.get outside key nowMs).2 key
        (entryLifetime.purge nowMs (map.view key)) := by
  obtain ⟨hedits, hvalue⟩ := FlatMap.get_spec h.toQuiet key nowMs outside h.accounted
  rw [purge_view]
  exact ⟨hvalue.trans (readableValue_eq (h.unexpired_unprotected nowMs)),
    .of_edits h hedits (get_accounted outside nowMs h.accounted) (h.unexpired_unprotected nowMs)⟩

theorem Plain.updated_exists :
    Updated map (map.exists key nowMs).2 key (entryLifetime.purge nowMs (map.view key)) := by
  rw [purge_view]
  exact .of_edits h (exists_spec h.toQuiet key nowMs h.accounted).1
    (exists_accounted nowMs h.accounted) (h.unexpired_unprotected nowMs)

theorem Plain.updated_ttlOf (seconds : Bool) :
    Updated map (map.ttlOf key nowMs seconds).2 key (entryLifetime.purge nowMs (map.view key)) := by
  rw [purge_view]
  exact .of_edits h (ttlOf_edits h.toQuiet key nowMs seconds)
    (ttlOf_accounted nowMs h.accounted seconds) (h.unexpired_unprotected nowMs)

end

/-- A new deadline changes neither the value nor the metadata. -/
theorem Plain.redated_unprotected (h : Plain map) (expireAtMs : Option ℕ) (entry : FlatEntry)
    (hentry : (unexpired nowMs (map.entries.lookup key)).map ({ · with expireAtMs }) =
      some entry) : entry.governance = none := by
  obtain ⟨stored, hstored, rfl⟩ := Option.map_eq_some_iff.mp hentry
  exact h.unexpired_unprotected nowMs stored hstored

theorem redated_toStored (expireAtMs : Option ℕ) :
    (left.map ({ · with expireAtMs })).map (·.toStored key) =
      (left.map (·.toStored key)).map (redate.amend expireAtMs) := by
  cases left <;> rfl

theorem Plain.expire_spec (h : Plain map) (key : Bytes) (expireAtMs : ℕ) :
    (map.expire key expireAtMs nowMs).1 = (entryLifetime.purge nowMs (map.view key)).isSome ∧
      Updated map (map.expire key expireAtMs nowMs).2 key
        ((entryLifetime.purge nowMs (map.view key)).map (redate.amend (some expireAtMs))) := by
  obtain ⟨hedits, hdone⟩ := FlatMap.expire_spec h.toQuiet key nowMs expireAtMs
  rw [purge_view, ← redated_toStored, Option.isSome_map]
  exact ⟨hdone, .of_edits h hedits (expire_accounted nowMs h.accounted expireAtMs)
    (h.redated_unprotected nowMs (some expireAtMs))⟩

theorem Plain.persist_spec (h : Plain map) (key : Bytes) : (map.persist key nowMs).1 =
        ((entryLifetime.purge nowMs (map.view key)).any fun entry => entry.expireAtMs.isSome) ∧
      Updated map (map.persist key nowMs).2 key
        ((entryLifetime.purge nowMs (map.view key)).map (redate.amend none)) := by
  obtain ⟨hedits, hdone⟩ := FlatMap.persist_spec h.toQuiet key nowMs
  rw [purge_view, ← redated_toStored, Option.any_map]
  exact ⟨hdone, .of_edits h hedits (persist_accounted nowMs h.accounted)
    (h.redated_unprotected nowMs none)⟩

theorem Quiet.deleteAll (keys : List Bytes) : ∀ {map : FlatMap}, Quiet map →
    Quiet (map.deleteAll keys) ∧ ∀ other, (map.deleteAll keys).entries.lookup other =
      if other ∈ keys then none else map.entries.lookup other := by
  induction keys with
  | nil => exact fun h => ⟨h, fun _ => rfl⟩
  | cons key keys ih =>
    intro map h
    have hedits := deleteHashedInternal_edits h key .expired
    obtain ⟨hquiet, hrest⟩ := ih hedits.quiet
    refine ⟨hquiet, fun other => (hrest other).trans ?_⟩
    rw [hedits.lookup]
    by_cases hkey : other = key
    · simp [hkey]
    · simp [hkey]

theorem Quiet.deleteAllRemote (h : Quiet map) (keys : List Bytes) :
    map.deleteAllRemote keys = map := by
  induction keys with
  | nil => rfl
  | cons key keys ih =>
    rw [FlatMap.deleteAllRemote, List.foldl_cons, h.deleteRemoteHashed_eq]
    exact ih

theorem mem_expiredKeys (map : FlatMap) (key : Bytes) : key ∈ map.expiredKeys nowMs ↔
      (map.entries.lookup key).any (·.isExpired nowMs) = true := by
  rw [expiredKeys, List.mem_filter]
  cases hkey : map.entries.lookup key with
  | none => simp
  | some entry =>
    have hmem : key ∈ map.entries.keys := AList.lookup_isSome.mp (by rw [hkey]; rfl)
    exact ⟨fun hexpired => hexpired.2, fun hexpired => ⟨hmem, hexpired⟩⟩

/-- The sweep leaves of every entry what its deadline leaves. -/
theorem Quiet.maintenance_lookup (h : Quiet map) (haccounted : Accounted map) :
    Quiet (map.processMaintenance outside nowMs).2 ∧
      ∀ key, (map.processMaintenance outside nowMs).2.entries.lookup key =
        unexpired nowMs (map.entries.lookup key) := by
  obtain ⟨hquiet, hentries⟩ := h.completions outside nowMs
  have hdone := accounted_kept.completions outside nowMs haccounted
  rw [← hentries]
  unfold processMaintenance
  generalize map.processObjectOverflowCompletions outside nowMs = done at hquiet hdone ⊢
  dsimp only
  split_ifs with hzero
  · exact ⟨hquiet, fun key => (hdone.unexpired_of_no_ttl hzero).symm⟩
  · obtain ⟨hswept, hlookup⟩ := hquiet.deleteAll (done.expiredKeys nowMs)
    rw [sweepExpired, hswept.deleteAllRemote]
    refine ⟨hswept, fun key => ?_⟩
    simp only [hlookup key, mem_expiredKeys, unexpired_eq]

/-- The sweep purges every key. -/
theorem Plain.maintenance_spec (h : Plain map) : Plain (map.processMaintenance outside nowMs).2 ∧
      ∀ key, (map.processMaintenance outside nowMs).2.view key =
        entryLifetime.purge nowMs (map.view key) := by
  obtain ⟨hquiet, hlookup⟩ := h.toQuiet.maintenance_lookup outside nowMs h.accounted
  refine ⟨⟨hquiet, accounted_kept.processMaintenance outside nowMs h.accounted, ?_⟩, ?_⟩
  · intro key entry hkey
    rw [hlookup] at hkey
    exact h.unexpired_unprotected nowMs entry hkey
  · intro key
    rw [purge_view, view, hlookup]

end Plain
end FlatMap
end ShardKv
