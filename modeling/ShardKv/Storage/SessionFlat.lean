import ShardKv.Storage.FlatMapEdits
import ShardKv.Storage.SessionCalls

/-!
# Stores without session slabs

As long as no slab is in use, each session key has its value in the flat map of
the shard that its session is routed to. The entry found there is the one of the
last write, or nothing when that write has expired.
-/
namespace ShardKv

open FlatMap EmbeddedStore

namespace SessionKey

variable (key : SessionKey)

theorem startsWith_bytes : startsWith key.bytes sessionMark = true := by
  simp [startsWith, bytes, List.append_assoc]

theorem derivedSession : derivedSessionStoragePrefix key.bytes = some key.session := by
  rw [derivedSessionStoragePrefix, if_pos key.startsWith_bytes]
  rfl

theorem pointWriteSession : pointWriteSessionStoragePrefix key.bytes = some key.session := by
  rw [pointWriteSessionStoragePrefix, if_pos key.startsWith_bytes]
  rfl

end SessionKey

namespace SessionConfig

variable (config : SessionConfig) (key : SessionKey)

/-- The shard of a session key. -/
def home (key : SessionKey) : ℕ := (config.routeKey key.bytes).shardId

theorem shardId_routeKey : (config.routeKey key.bytes).shardId = config.home key := rfl

theorem home_eq : config.home key = config.routeSession key.session := by
  simp only [home, EmbeddedConfig.routeKey, computeKeyRoute, config.sessionMode]
  rfl

theorem routeHashForKey_eq :
    config.routeHash (routeHashForKey config.hashKey config.routeMode config.shift key.bytes) =
      config.home key := by
  simp only [home_eq, routeHashForKey, config.sessionMode]
  rfl

theorem usesFlatKeyStorage_eq : usesFlatKeyStorage config.routeMode key.bytes = false := by
  rw [usesFlatKeyStorage, key.derivedSession, config.sessionMode]
  rfl

theorem home_lt : config.home key < config.shardCount := by
  rw [home_eq]
  exact stripeIndex_lt _ _

/-- With one shard there is nothing to route. -/
theorem routeHash_of_single (hsingle : config.shardCount = 1) (hash : ℕ) :
    config.routeHash hash = config.home key := by
  have hhash : config.routeHash hash < config.shardCount := stripeIndex_lt _ _
  have hhome := config.home_lt key
  omega

end SessionConfig

/-- Nothing is in a slab, and nothing leaves the flat map on its own. -/
structure FlatShard (shard : EmbeddedShard) : Prop where
  quiet : Quiet shard.map
  accounted : Accounted shard.map
  noSlab : ∀ session, shard.sessionSlots.sessions.lookup session = none

namespace FlatShard

variable {shard : EmbeddedShard}

theorem empty : FlatShard {} where
  quiet := ⟨rfl, rfl, rfl⟩
  accounted := FlatMapCall.empty_accounted
  noSlab _ := rfl

section

variable (h : FlatShard shard)
include h

theorem withMap {map : FlatMap} (hquiet : Quiet map) (haccounted : Accounted map) :
    FlatShard { shard with map } :=
  ⟨hquiet, haccounted, h.noSlab⟩

theorem hasSession (session : Bytes) : shard.sessionSlots.hasSession session = false := by
  simp [SessionSlotMap.hasSession, h.noSlab]

theorem deleteHashed (session key : Bytes) :
    shard.sessionSlots.deleteHashed session key = (false, shard.sessionSlots) := by
  simp [SessionSlotMap.deleteHashed, h.noSlab]

section

variable (key : Bytes)

theorem clearPointSession : shard.clearPointSession key = shard := by
  unfold EmbeddedShard.clearPointSession
  cases pointWriteSessionStoragePrefix key with
  | none => rfl
  | some => simp [h.deleteHashed]

theorem clearDerivedSession (routeMode : EmbeddedRouteMode) :
    shard.clearDerivedSession key routeMode = shard := by
  unfold EmbeddedShard.clearDerivedSession
  split_ifs
  · cases derivedSessionStoragePrefix key with
    | none => rfl
    | some => simp [h.deleteHashed]
  · rfl

theorem sessionCopy : shard.sessionCopy key = none := by
  unfold EmbeddedShard.sessionCopy SessionSlotMap.getRefHashed
  cases derivedSessionStoragePrefix key with
  | none => rfl
  | some => simp [h.noSlab]

theorem publishedSession : shard.publishedSession key = none := by
  unfold EmbeddedShard.publishedSession
  cases derivedSessionStoragePrefix key with
  | none => rfl
  | some => simp [h.hasSession, Option.filter]

theorem getRefHashedSessionOrFlat (nowMs : ℕ) :
    shard.getRefHashedSessionOrFlat key nowMs = shard.getRefHashedFlat key nowMs := by
  rw [EmbeddedShard.getRefHashedSessionOrFlat, h.sessionCopy]

theorem getRefHashedPublishedSessionOrFlat (nowMs : ℕ) :
    shard.getRefHashedPublishedSessionOrFlat key nowMs = shard.getRefHashedFlat key nowMs := by
  rw [EmbeddedShard.getRefHashedPublishedSessionOrFlat, h.publishedSession]
  rfl

end
end
end FlatShard

def Written.toEntry (written : Written) : FlatEntry where
  value := written.value
  expireAtMs := written.expireAtMs

/-- The entry of the last write, which may be gone once its deadline has passed. -/
def Holds (nowMs : ℕ) (entry : Option FlatEntry) (written : Option Written) : Prop :=
  entry = written.map Written.toEntry ∨ entry = none ∧ visible nowMs written = none

section Holds

variable {nowMs later : ℕ} {entry : Option FlatEntry} {written : Option Written}

theorem visible_some (previous : Written) : visible nowMs (some previous) =
      if isExpiredAt previous.expireAtMs nowMs then none else some previous := by
  cases hexpired : isExpiredAt previous.expireAtMs nowMs <;>
    simp [visible, Option.filter, hexpired]

theorem eq_of_visible {previous : Written} (h : visible nowMs written = some previous) :
    written = some previous := (Option.filter_eq_some_iff.mp h).1

theorem Holds.mono (h : Holds nowMs entry written) (hle : nowMs ≤ later) :
    Holds later entry written := by
  rcases h with hentry | ⟨hentry, hgone⟩
  · exact .inl hentry
  · refine .inr ⟨hentry, ?_⟩
    cases written with
    | none => rfl
    | some =>
      rw [visible_some] at hgone ⊢
      split_ifs at hgone with hexpired
      rw [if_pos (isExpiredAt_mono hle hexpired)]

/-- A look at the deadline leaves what is visible. -/
theorem Holds.unexpired (h : Holds nowMs entry written) :
    FlatMap.unexpired nowMs entry = (visible nowMs written).map Written.toEntry := by
  rcases h with rfl | ⟨rfl, hgone⟩
  · cases written with
    | none => rfl
    | some previous =>
      rw [Option.map_some, unexpired_some, visible_some]
      change (if isExpiredAt previous.expireAtMs nowMs then none else _) = _
      split_ifs <;> rfl
  · rw [hgone]
    rfl

theorem Holds.of_visible (h : entry = (visible nowMs written).map Written.toEntry) :
    Holds nowMs entry written := by
  cases hvisible : visible nowMs written with
  | none => exact .inr ⟨by rw [h, hvisible]; rfl, hvisible⟩
  | some =>
    rw [hvisible] at h
    rw [eq_of_visible hvisible]
    exact .inl h

theorem readableValue_map (written : Option Written) :
    readableValue (written.map Written.toEntry) = written.map (·.value) := by
  cases written <;> rfl

theorem Holds.readableValue (h : Holds nowMs entry written) :
    FlatMap.readableValue entry = visibleValue nowMs written ∨
      FlatMap.readableValue entry = written.map (·.value) := by
  rcases h with rfl | ⟨rfl, hgone⟩
  · exact .inr (readableValue_map written)
  · left
    rw [visibleValue, hgone]
    rfl

end Holds

/-- All values are in the flat maps, at the shards of their keys. -/
structure Flat (config : SessionConfig) (state : SessionState) : Prop where
  shards : ∀ shardId, FlatShard (state.store.shards shardId)
  holds : ∀ key, Holds state.clock
    ((state.store.shards (config.home key)).map.entries.lookup key.bytes)
    (state.written key.bytes)

namespace Flat

variable {config : SessionConfig} {state : SessionState} {key : SessionKey}

theorem initial : Flat config {} where
  shards _ := FlatShard.empty
  holds _ := .inl rfl

theorem later (h : Flat config state) {clock : ℕ} (hle : state.clock ≤ clock) :
    Flat config { state with clock } where
  shards := h.shards
  holds key := (h.holds key).mono hle

section

variable (h : Flat config state) {shard : EmbeddedShard} {entry : Option FlatEntry}
include h

theorem edit {written : Option Written} (hshard : FlatShard shard)
    (hedits : Edits (state.store.shards (config.home key)).map shard.map key.bytes entry)
    (hholds : Holds state.clock entry written) :
    Flat config { state with
      store := state.store.setShard (config.home key) shard
      written := Function.update state.written key.bytes written } where
  shards shardId := by
    by_cases hid : shardId = config.home key
    · subst hid
      simpa [setShard] using hshard
    · simpa [setShard, hid] using h.shards shardId
  holds other := by
    by_cases hbytes : other.bytes = key.bytes
    · have hhome : config.home other = config.home key := by
        rw [SessionConfig.home, hbytes]
        rfl
      have hentry : shard.map.entries.lookup other.bytes = entry := by
        rw [hbytes, hedits.lookup_self]
      simpa [setShard, hbytes, hhome, hentry] using hholds
    · have hother := h.holds other
      by_cases hhome : config.home other = config.home key
      · rw [hhome] at hother
        simpa [setShard, hhome, hbytes, hedits.lookup_other hbytes] using hother
      · simpa [setShard, hhome, hbytes] using hother

theorem keep (hshard : FlatShard shard)
    (hedits : Edits (state.store.shards (config.home key)).map shard.map key.bytes entry)
    (hholds : Holds state.clock entry (state.written key.bytes)) :
    Flat config { state with store := state.store.setShard (config.home key) shard } := by
  have hedit := h.edit hshard hedits hholds
  rwa [Function.update_eq_self] at hedit

end
end Flat
end ShardKv
