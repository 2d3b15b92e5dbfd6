import ShardKv.Storage.SessionReads

/-!
# Session storage as one map

As long as no call puts a value into a session slab, every value of a session key
is in the flat map of its shard, and all readers find it there. The first value
that goes into a slab is invisible to the routed session get, which looks at the
flat map alone.
-/
namespace ShardKv

open FlatMap SessionCall EmbeddedStore List SessionState Function Nat

namespace Flat

variable {config : SessionConfig} {state : SessionState} {key : SessionKey}
  {map : FlatMap} {session : Bytes}

/-- The invariant holds after a call at the present time. -/
abbrev Keeps (config : SessionConfig) (state : SessionState) (call : SessionCall) : Prop :=
  Flat config (state.step config { call })

/-- A write of the flat map that leaves an entry without protection. -/
theorem write (h : Flat config state) (written : Written)
    (hedits : Edits (state.store.shards (config.home key)).map map key.bytes (some written.toEntry))
    (haccounted : Accounted map) :
    Flat config { state with
      store := state.store.setShard (config.home key)
        { state.store.shards (config.home key) with map }
      written := update state.written key.bytes (some written) } :=
  h.edit ((h.shards _).withMap hedits.quiet haccounted) hedits (.inl rfl)

/-- A look at the flat map that drops the entry of the key when its deadline has passed. -/
theorem look (h : Flat config state)
    (hedits : Edits (state.store.shards (config.home key)).map map key.bytes
      (unexpired state.clock ((state.store.shards (config.home key)).map.entries.lookup key.bytes)))
    (haccounted : Accounted map) :
    Flat config { state with
      store := state.store.setShard (config.home key)
        { state.store.shards (config.home key) with map } } :=
  h.keep ((h.shards _).withMap hedits.quiet haccounted) hedits
    (Holds.of_visible (h.holds key).unexpired)

theorem set (h : Flat config state) (key : SessionKey) (value : Bytes) (ttlMs : Option ℕ) :
    Keeps config state (.set key value ttlMs) := by
  have hshard := h.shards (config.home key)
  simp only [Keeps, step, apply, duration, add_zero]
  unfold EmbeddedStore.set setValueBytesRoutedWithGovernance
  cases haccepted : config.pointMutationIsAccepted key.bytes value.length none with
  | false =>
    simp only [record, haccepted, Option.map_none]
    exact h
  | true =>
    simp only [record, haccepted, Option.map_none, ite_self]
    simp only [modifyShard, config.shardId_routeKey, hshard.clearPointSession]
    exact h.write ⟨value, deadlineAfter state.clock ttlMs⟩
      (setReplacing_edits hshard.quiet key.bytes _ {} value none _)
      (setReplacing_accounted {} state.clock hshard.accounted value none _)

theorem deadlineAfter_isSome (nowMs : ℕ) (ttlMs : Option ℕ) :
    deadlineAfter (if ttlMs.isSome then nowMs else 0) ttlMs = deadlineAfter nowMs ttlMs := by
  cases ttlMs <;> rfl

section

variable (h : Flat config state)
include h

section

variable (key)

theorem setSlicePrehashed (value : Bytes) (ttlMs : Option ℕ) :
    Keeps config state (.setSlicePrehashed key value ttlMs) := by
  have hshard := h.shards (config.home key)
  simp only [Keeps, step, apply, duration, add_zero]
  unfold EmbeddedStore.setSlicePrehashed
  cases haccepted : config.pointMutationIsAccepted key.bytes value.length none with
  | false =>
    simp only [record, haccepted]
    exact h
  | true =>
    cases hroute : canRouteWithKeyHash config.routeMode config.shardCount key.bytes with
    | false => exact h.set key value ttlMs
    | true =>
      have hsingle : config.shardCount = 1 := by
        simpa [canRouteWithKeyHash, config.sessionMode, key.startsWith_bytes] using hroute
      simp only [record, haccepted, modifyShard,
        config.routeHash_of_single key hsingle, hshard.clearPointSession, deadlineAfter_isSome]
      exact h.write ⟨value, deadlineAfter state.clock ttlMs⟩
        (setSliceHashed_edits hshard.quiet key.bytes _ {} value _)
        (setSliceHashed_accounted {} _ hshard.accounted value _)

/-- The deadline a `KEEPTTL` write finds, and the shard it leaves. -/
theorem keepTtl (value : Bytes) (ownedReplacement : Bool) (objectExpiry : Option (Option ℕ)) :
    Keeps config state (.setSliceKeepTtl key value ownedReplacement objectExpiry) := by
  have hshard := h.shards (config.home key)
  simp only [Keeps, step, apply, duration, add_zero]
  unfold EmbeddedStore.setSliceKeepTtl
  cases haccepted : config.pointMutationIsAccepted key.bytes value.length none with
  | false =>
    simp only [record, haccepted]
    exact h
  | true =>
    obtain ⟨hlook, hexpiry⟩ := entryExpireAtForKeepTtlHashed_spec hshard.quiet key.bytes state.clock
    have hkept : (unexpired state.clock ((state.store.shards (config.home key)).map.entries.lookup
        key.bytes)).map (·.expireAtMs) =
          (visible state.clock (state.written key.bytes)).map (·.expireAtMs) := by
      rw [(h.holds key).unexpired, Option.map_map]
      rfl
    have hlooked := hshard.withMap hlook.quiet
            (entryExpireAtForKeepTtlHashed_accounted _ hshard.accounted)
    have hwrite : ∀ (map : FlatMap) (expireAtMs : Option ℕ) (left : Option FlatEntry),
        Edits (state.store.shards (config.home key)).map map key.bytes left → Accounted map →
        Flat config { state with
          store := state.store.setShard (config.home key)
            { state.store.shards (config.home key) with
              map :=
                if (ownedReplacement || !canRouteWithKeyHash config.routeMode config.shardCount
                    key.bytes) = true then
                  map.setBytesHashedWithGovernanceOption {} key.bytes value none expireAtMs
                    state.clock
                else map.setSliceHashed {} key.bytes value expireAtMs state.clock }
          written := update state.written key.bytes (some { value, expireAtMs }) } := by
      intro map expireAtMs left hedits haccounted
      split_ifs
      · exact h.write ⟨value, expireAtMs⟩
          (hedits.trans (setReplacing_edits hedits.quiet key.bytes _ {} value none expireAtMs))
          (setReplacing_accounted {} state.clock haccounted value none expireAtMs)
      · exact h.write ⟨value, expireAtMs⟩
          (hedits.trans (setSliceHashed_edits hedits.quiet key.bytes _ {} value expireAtMs))
          (setSliceHashed_accounted {} state.clock haccounted value expireAtMs)
    simp only [record, haccepted, modifyShard, config.shardId_routeKey, hshard.sessionCopy]
    cases objectExpiry with
    | some =>
      simp only [hshard.clearPointSession]
      exact hwrite _ _ _ (hshard.quiet.edits_self rfl) hshard.accounted
    | none =>
      simp only [Option.isSome_none, Bool.false_eq_true, if_false, hexpiry, hkept,
        hlooked.clearPointSession]
      exact hwrite _ _ _ hlook (entryExpireAtForKeepTtlHashed_accounted _ hshard.accounted)

theorem notProtected :
    (state.store.shards (config.home key)).map.isValueProtectedHashed key.bytes state.clock =
      false := by
  have hquiet := (h.shards (config.home key)).quiet
  have hentry := (h.holds key).unexpired
  unfold unexpired at hentry
  simp only [isValueProtectedHashed, hentry, hquiet.remote_lookup, Option.any_none, Bool.or_false]
  cases visible state.clock (state.written key.bytes) <;> rfl

theorem transform (refused : Bool) (edit : Option Bytes → Except Unit Bytes) :
    Keeps config state (.transform key refused edit) := by
  have hshard := h.shards (config.home key)
  cases refused with
  | true => exact h
  | false =>
    have haccounted := @transformValueHashed_accounted _ key.bytes {} state.clock
      hshard.accounted _ _ true (acceptedEdit config key.bytes edit)
    have hedits := transformValueHashed_edits hshard.quiet key.bytes state.clock {}
      hshard.accounted (acceptedEdit config key.bytes edit)
    rw [(h.holds key).unexpired, transformed, readableValue_map] at hedits
    have hlook : (acceptedEdit config key.bytes edit
        (visibleValue state.clock (state.written key.bytes))) = .error () →
        Flat config { state with
          store := state.store.transformRawStringValueNoTtl config key.bytes
            false edit state.clock } := by
      intro herror
      rw [visibleValue] at herror
      rw [herror, ← (h.holds key).unexpired] at hedits
      exact h.look hedits haccounted
    simp only [Keeps, step, apply, duration, add_zero, record,
      Bool.false_eq_true, if_false]
    cases hresult : edit (visibleValue state.clock (state.written key.bytes)) with
    | error => exact hlook (by rw [acceptedEdit, hresult])
    | ok value =>
      cases haccepted : config.pointMutationIsAccepted key.bytes value.length none with
      | false =>
        simp only [haccepted, Bool.false_eq_true, if_false]
        exact hlook (by simp [acceptedEdit, hresult, haccepted])
      | true =>
        simp only [haccepted, if_true]
        have hedit : acceptedEdit config key.bytes edit
            ((visible state.clock (state.written key.bytes)).map (·.value)) = .ok ((), value) := by
          rw [visibleValue] at hresult
          simp [acceptedEdit, hresult, haccepted]
        rw [hedit] at hedits
        exact h.write ⟨value, none⟩ hedits haccounted

/-- An update in place acts on an entry as it does on the write it stands for. -/
theorem mutateInPlace (refused isUnique : Bool) (update : SliceUpdate) :
    Keeps config state (.mutateInPlace key refused isUnique update) := by
  have hshard := h.shards (config.home key)
  simp only [Keeps, step, apply, duration, add_zero]
  cases refused with
  | true =>
    simp only [record, Bool.not_true, Bool.false_and, Bool.false_eq_true, if_false]
    split <;> exact h
  | false =>
    have haccounted := @updateValueHashedNoTtl_accounted _ key.bytes hshard.accounted isUnique
      update
    have hedits := updateValueHashedNoTtl_edits hshard.quiet key.bytes isUnique update
    have hkeep : ∀ entry, (((state.store.shards (config.home key)).map.entries.lookup
        key.bytes).map (updatedInPlace isUnique update)) = entry →
        Holds state.clock entry (state.written key.bytes) →
        Flat config { state with
          store := state.store.mutateStringValueNoTtlInPlace config key.bytes
            false isUnique update } := by
      intro entry hentry hholds
      rw [hentry] at hedits
      exact h.keep (hshard.withMap hedits.quiet haccounted) hedits hholds
    simp only [record, Bool.not_false, Bool.true_and]
    rcases h.holds key with hentry | ⟨hentry, hgone⟩
    · cases hwritten : state.written key.bytes with
      | none => exact hkeep none (by rw [hentry, hwritten]; rfl) (.inl (by rw [hwritten]; rfl))
      | some previous =>
        obtain ⟨value, expireAtMs⟩ := previous
        rw [hwritten] at hentry
        cases expireAtMs with
        | some => exact hkeep (some _) (by rw [hentry]; rfl) (.inl (by rw [hwritten]; rfl))
        | none =>
          cases isUnique with
          | false => exact hkeep (some _) (by rw [hentry]; rfl) (.inl (by rw [hwritten]; rfl))
          | true =>
            rw [hentry] at hedits
            exact h.write ⟨update.apply value, none⟩ hedits haccounted
    · have hnone := hkeep none (by rw [hentry]; rfl) (.inr ⟨rfl, hgone⟩)
      split
      · rename_i value hwritten
        rw [hwritten] at hgone
        cases hgone
      · exact hnone

end
end

section Guards

variable {nowMs : ℕ}

section

variable (h : Flat config state) (key)
include h

theorem getMutRouted_spec : ∃ map, getMutRouted config
        (state.store.shards (config.home key)) key.bytes state.clock =
          ((visible state.clock (state.written key.bytes)).map (·.expireAtMs),
            { state.store.shards (config.home key) with map }) ∧
      FlatShard { state.store.shards (config.home key) with map } ∧
      Edits (state.store.shards (config.home key)).map map key.bytes
        ((visible state.clock (state.written key.bytes)).map Written.toEntry) := by
  have hshard := h.shards (config.home key)
  obtain ⟨hedits, hvalue⟩ := entryExpireAtHashed_spec hshard.quiet key.bytes state.clock
    hshard.accounted
  rw [(h.holds key).unexpired] at hedits hvalue
  refine ⟨_, ?_, hshard.withMap hedits.quiet
    (entryExpireAtHashed_accounted state.clock hshard.accounted), hedits⟩
  simp only [getMutRouted, hshard.publishedSession, Option.isSome_none,
    Bool.and_false, Bool.false_eq_true, if_false, h.notProtected key, hvalue, Option.map_map]
  rfl

theorem getMutSet (value : Bytes) (untilSet untilWrite : ℕ) :
    Keeps config state (.getMutSet key value untilSet untilWrite) := by
  have hlater := h.later (le_add_right state.clock (untilSet + untilWrite))
  obtain ⟨map, hfound, hplain, hedits⟩ := h.getMutRouted_spec key
  have hlooked : Holds (state.clock + (untilSet + untilWrite))
      ((visible state.clock (state.written key.bytes)).map Written.toEntry)
      (state.written key.bytes) := (Holds.of_visible rfl).mono (le_add_right _ _)
  simp only [Keeps, step, apply, duration, add_zero,
    EmbeddedStore.getMutSet, modifyShard, config.shardId_routeKey, hfound, record]
  cases hvisible : visible state.clock (state.written key.bytes) with
  | none =>
    rw [hvisible] at hedits hlooked
    exact hlater.keep hplain hedits hlooked
  | some previous =>
    rw [hvisible] at hedits hlooked
    simp only [Option.map_some]
    cases haccepted : config.pointMutationIsAccepted key.bytes value.length none with
    | false =>
      exact hlater.keep hplain hedits hlooked
    | true =>
      cases hexpired : isExpiredAt previous.expireAtMs (state.clock + untilSet) with
      | true =>
        have hremoved := hedits.trans (removeValueHashed_edits hedits.quiet key.bytes
          (state.clock + untilSet + untilWrite) {})
        apply hlater.keep _ hremoved
        · right
          refine ⟨rfl, ?_⟩
          rw [eq_of_visible hvisible, visible_some, if_pos]
          have hle : state.clock + untilSet ≤ state.clock + (untilSet + untilWrite) := by omega
          exact isExpiredAt_mono hle hexpired
        · exact hplain.withMap hremoved.quiet (removeValueHashed_accounted _ _ hplain.accounted)
      | false =>
        have hset := hedits.trans (setReplacing_edits hedits.quiet key.bytes
          (if previous.expireAtMs.isSome then state.clock + untilSet + untilWrite else 0) {}
          value none previous.expireAtMs)
        simp only [EmbeddedShard.setValueBytesHashed, hplain.clearDerivedSession]
        exact hlater.write { previous with value } hset
          (setReplacing_accounted _ _ hplain.accounted value none _)

theorem getMutRemove (untilRemove : ℕ) : Keeps config state (.getMutRemove key untilRemove) := by
  have hlater := h.later (le_add_right state.clock untilRemove)
  obtain ⟨map, hfound, hplain, hedits⟩ := h.getMutRouted_spec key
  have hlooked : Holds (state.clock + untilRemove)
      ((visible state.clock (state.written key.bytes)).map Written.toEntry)
      (state.written key.bytes) := (Holds.of_visible rfl).mono (le_add_right _ _)
  simp only [Keeps, step, apply, duration, add_zero,
    EmbeddedStore.getMutRemove, modifyShard, config.shardId_routeKey, hfound, record]
  cases hvisible : visible state.clock (state.written key.bytes) with
  | none =>
    rw [hvisible] at hedits hlooked
    exact hlater.keep hplain hedits hlooked
  | some =>
    rw [hvisible] at hedits
    have hremoved := hedits.trans (removeValueHashed_edits hedits.quiet key.bytes
      (state.clock + untilRemove) {})
    apply hlater.edit _ hremoved (.inl rfl)
    exact hplain.withMap hremoved.quiet (removeValueHashed_accounted _ _ hplain.accounted)

end
end Guards

theorem delete (h : Flat config state) (key : SessionKey) (shardHasObjects : Bool) :
    Keeps config state (.delete key shardHasObjects) := by
  have hshard := h.shards (config.home key)
  simp only [Keeps, step, apply, duration, add_zero]
  unfold EmbeddedStore.delete
  cases haccepted : config.pointMutationIsAccepted key.bytes 0 none with
  | false =>
    simp only [record, haccepted]
    exact h
  | true =>
    have hedits := deleteHashed_edits hshard.quiet key.bytes
    simp only [record, haccepted, deleteRouted, ite_self, key.derivedSession]
    simp only [config.shardId_routeKey, hshard.deleteHashed, Bool.and_false, Bool.not_true,
      Bool.false_eq_true, if_false]
    exact h.edit (hshard.withMap hedits.quiet
      (deleteHashedInternal_accounted hshard.accounted .explicit)) hedits (.inl rfl)

theorem modifyShard_foldl {α : Type} (shardId : ℕ) (change : EmbeddedShard → α → EmbeddedShard)
    (items : List α) : ∀ store : EmbeddedStore,
      store.modifyShard shardId (fun shard => items.foldl change shard) =
        items.foldl (fun store item => store.modifyShard shardId (change · item)) store := by
  induction items with
  | nil =>
    simp [modifyShard, setShard]
  | cons item items ih =>
    intro store
    rw [foldl_cons, ← ih]
    simp [modifyShard, setShard]

theorem routedSlices (items : List (KeyOf session × Bytes)) :
    ∀ {state : SessionState}, Flat config state → Flat config { state with
      store := state.store.batchSetSessionSlicesRoutedNoTtl (config.routeSession session)
        (sliceItems items)
      written := (routedSessionSlices session items).record config
        state.clock state.written } := by
  simp only [batchSetSessionSlicesRoutedNoTtl, modifyShard_foldl, record]
  induction items with
  | nil => exact fun h => h
  | cons item items ih =>
    intro state h
    obtain ⟨⟨key, hsession⟩, value⟩ := item
    have hshard := h.shards (config.home key)
    have hwrite := h.write ⟨value, none⟩
      (setSliceHashed_edits hshard.quiet key.bytes 0 {} value none)
      (setSliceHashed_accounted {} 0 hshard.accounted value none)
    have hhome : config.home key = config.routeSession session := by
      rw [config.home_eq, hsession]
    have hrest := ih hwrite
    rw [hhome] at hrest
    exact hrest

/-- What an owned-shard write comes to in session mode. -/
theorem ownedSet_eq (store : EmbeddedStore) (shardId keyHash : ℕ) (key : SessionKey)
    (value : Bytes) (shardHasObjects : Bool) :
    (store.setSliceHashedTaggedOwnedShardNoTtl config shardId keyHash key.bytes
        value shardHasObjects).2 =
      if ownedSetAccepted config shardId keyHash key.bytes value shardHasObjects then
        store.modifyShard (config.home key) fun shard =>
          shard.setSessionSliceHashedNoTtl key.bytes key.session value
      else store := by
  unfold setSliceHashedTaggedOwnedShardNoTtl ownedSetAccepted
  cases config.pointMutationIsAccepted key.bytes value.length none with
  | false => rfl
  | true =>
    by_cases hshard : shardId < config.shardCount
    · cases shardHasObjects with
      | true => simp [hshard]
      | false =>
        simp only [hshard, config.sessionMode, key.pointWriteSession, config.shardId_routeKey]
        by_cases hhome : config.home key = shardId
        · by_cases hhash : (config.routeKey key.bytes).keyHash = keyHash
          · simp [hhome, hhash]
          · simp [hhome, hhash]
        · simp [hhome]
    · simp [hshard]

theorem ownedSessionSet_eq (store : EmbeddedStore) (key : SessionKey) (value : Bytes)
    (shardHasObjects : Bool) :
    (store.setSessionSliceHashedOwnedShardNoTtlPrevalidated config
        (config.routeSession key.session) key.session key.bytes value shardHasObjects).2 =
      if ownedSessionSetAccepted config key.bytes value shardHasObjects then
        store.modifyShard (config.home key) fun shard =>
          shard.setSessionSliceHashedNoTtl key.bytes key.session value
      else store := by
  have hlt := config.home_lt key
  rw [config.home_eq] at hlt ⊢
  unfold setSessionSliceHashedOwnedShardNoTtlPrevalidated ownedSessionSetAccepted
  cases config.pointMutationIsAccepted key.bytes value.length none <;> cases shardHasObjects <;>
    simp [hlt]

theorem getRefHashed_of_missing {bytes : Bytes} {nowMs : ℕ} (h : map.entries.lookup bytes = none) :
    (map.getRefHashed bytes nowMs).1 = none := by
  have hlazy : map.lookupRefHashedLazy bytes = none := by
    rw [lookupRefHashedLazy, findReadable, h]
    rfl
  unfold FlatMap.getRefHashed getRefHashedTtl purgeThen
  split_ifs
  · exact hlazy
  · rfl
  · exact hlazy

/-- A value that is in no flat map is invisible to the routed session get. -/
theorem not_readsAgree_of_missing (key : SessionKey) (value : Bytes)
    (hwritten : state.written key.bytes = some { value })
    (hmissing : (state.store.shards (config.home key)).map.entries.lookup key.bytes = none) :
    ¬ state.ReadsAgree config := by
  intro hagree
  have hread := hagree (.routedSessionGet key.session [⟨key, rfl⟩]) state.clock (le_refl _)
  rw [config.home_eq] at hmissing
  have hnone : (SessionReader.answer config state.store state.clock
      (.routedSessionGet key.session [⟨key, rfl⟩])).1 = [none] := by
    exact congrArg (fun value => [value]) (getRefHashed_of_missing hmissing)
  have hsome : SessionReader.Agrees state.written state.clock
      (.routedSessionGet key.session [⟨key, rfl⟩]) [none] ↔
        [none] = [visibleValue state.clock (state.written key.bytes)] := Iff.rfl
  rw [hnone, hsome, hwritten] at hread
  cases hread

theorem setSessionSlice_missing {shard : EmbeddedShard} (h : FlatShard shard)
    (bytes session value : Bytes) :
    (shard.setSessionSliceHashedNoTtl bytes session value).map.entries.lookup bytes = none := by
  unfold EmbeddedShard.setSessionSliceHashedNoTtl
  split_ifs with hempty
  · have hkeys : shard.map.entries.keys.length = 0 := by
      have hlen : shard.map.len = 0 := of_decide_eq_true hempty
      exact (Nat.add_eq_zero_iff.mp hlen).1
    apply AList.lookup_eq_none.mpr
    intro hmem
    rw [AList.mem_keys, eq_nil_of_length_eq_zero hkeys] at hmem
    exact not_mem_nil hmem
  · exact (deleteHashed_edits h.quiet bytes).lookup_self

theorem sessionSlice_breaks (h : Flat config state) (key : SessionKey) (value : Bytes) {clock : ℕ} :
    ¬ SessionState.ReadsAgree config {
      store := state.store.modifyShard (config.home key) fun shard =>
        shard.setSessionSliceHashedNoTtl key.bytes key.session value
      written := update state.written key.bytes (some { value })
      clock } := by
  apply not_readsAgree_of_missing key value
  · exact update_self _ _ _
  · simp only [modifyShard, setShard, update_self]
    exact setSessionSlice_missing (h.shards _) _ _ _

/-- The flat copies of all items are gone after a batch of slices. -/
theorem sessionSlices_quiet (items : List (Bytes × Bytes)) :
    ∀ {shard : EmbeddedShard}, Quiet shard.map → Quiet (items.foldl (fun shard item =>
        ({ map := (shard.map.deleteHashed item.1).2
           sessionSlots := shard.sessionSlots.setSliceHashed session item.1 item.2 } :
          EmbeddedShard)) shard).map := by
  induction items with
  | nil => exact fun h => h
  | cons item items ih => exact fun h => ih (deleteHashed_edits h item.1).quiet

theorem sessionSlices_breaks (h : Flat config state) (items : List (KeyOf session × Bytes))
    (hitems : items ≠ []) {clock : ℕ} :
    ¬ SessionState.ReadsAgree config {
      store := state.store.batchSetSessionSlicesNoTtl config session (sliceItems items)
      written := (sessionSlices session items).record config state.clock state.written
      clock } := by
  -- the last item of the batch is the one that is missed
  obtain ⟨front, ⟨⟨key, hsession⟩, value⟩, rfl⟩ := (eq_nil_or_concat items).resolve_left hitems
  have hslices : sliceItems (front ++ [(⟨key, hsession⟩, value)]) =
      sliceItems front ++ [(key.bytes, value)] := by
    rw [sliceItems, map_append]
    rfl
  apply not_readsAgree_of_missing key value
  · simp only [record, concat_eq_append, hslices, foldl_append,
      foldl_cons, foldl_nil, update_self]
  · have hhome : config.home key = config.routeSession session := by
      rw [config.home_eq, hsession]
    simp only [batchSetSessionSlicesNoTtl, modifyShard,
      setShard, hhome, update_self, concat_eq_append, hslices,
      foldl_append, foldl_cons, foldl_nil]
    exact (deleteHashed_edits (sessionSlices_quiet _ (h.shards _).quiet) key.bytes).lookup_self

theorem step (h : Flat config state) (timed : TimedCall)
    (hslab : timed.call.writesSlab config = false) :
    Flat config (state.step config timed) := by
  obtain ⟨elapsed, call⟩ := timed
  have hnow := h.later (le_add_right state.clock elapsed)
  cases call with
  | set => exact hnow.set ..
  | setSlicePrehashed => exact hnow.setSlicePrehashed ..
  | setSliceKeepTtl => exact hnow.keepTtl ..
  | transform => exact hnow.transform ..
  | mutateInPlace => exact hnow.mutateInPlace ..
  | getMutSet => exact hnow.getMutSet ..
  | getMutRemove => exact hnow.getMutRemove ..
  | ownedSet =>
    change ownedSetAccepted _ _ _ _ _ _ = false at hslab
    simp only [SessionState.step, apply, record, ownedSet_eq, hslab]
    exact hnow
  | ownedSessionSet =>
    change ownedSessionSetAccepted _ _ _ _ = false at hslab
    simp only [SessionState.step, apply, record, ownedSessionSet_eq, hslab]
    exact hnow
  | delete => exact hnow.delete ..
  | sessionSlices session items =>
    have hnil : items = [] := by
      simpa [writesSlab] using hslab
    subst hnil
    simp only [SessionState.step, apply, record, sliceItems,
      batchSetSessionSlicesNoTtl, modifyShard,
      setShard, map_nil, foldl_nil, update_eq_self]
    exact hnow
  | routedSessionSlices => exact routedSlices _ hnow
  | read => exact (hnow.answer _).2

theorem step_breaks (h : Flat config state) (timed : TimedCall)
    (hslab : timed.call.writesSlab config = true) :
    ¬ (state.step config timed).ReadsAgree config := by
  obtain ⟨elapsed, call⟩ := timed
  have hnow := h.later (le_add_right state.clock elapsed)
  cases call with
  | ownedSet shardId keyHash key value =>
    change ownedSetAccepted _ _ _ _ _ _ = true at hslab
    simp only [SessionState.step, apply, record, ownedSet_eq, hslab]
    exact hnow.sessionSlice_breaks key value
  | ownedSessionSet key value =>
    change ownedSessionSetAccepted _ _ _ _ = true at hslab
    simp only [SessionState.step, apply, record, ownedSessionSet_eq, hslab]
    exact hnow.sessionSlice_breaks key value
  | sessionSlices session items =>
    have hitems : items ≠ [] := by
      simpa [writesSlab] using hslab
    exact hnow.sessionSlices_breaks items hitems
  | _ => cases hslab

end Flat

namespace SessionState

/-- In every state that a run reaches, all readers agree with the map exactly when no call of the
run puts a value into a session slab. -/
theorem readsAgree_iff_no_slab_write (config : SessionConfig) (calls : List TimedCall) :
    (∀ front, front <+: calls → (run config front).ReadsAgree config) ↔
      ∀ timed ∈ calls, timed.call.writesSlab config = false := by
  have hgood : ∀ state, Flat config state → state.ReadsAgree config :=
    fun _ h => h.readsAgree
  have hsafe : ∀ state timed, Flat config state → timed.call.writesSlab config = false →
      Flat config (state.step config timed) := fun _ timed h => h.step timed
  have hbreaks : ∀ state timed, Flat config state → ¬ timed.call.writesSlab config = false →
      ¬ (state.step config timed).ReadsAgree config :=
    fun _ timed h hslab => h.step_breaks timed (Bool.eq_true_of_not_eq_false hslab)
  have hruns := safeRun_iff_forall_good hgood hsafe hbreaks calls {} Flat.initial
  rw [safeRun_const] at hruns
  exact hruns.symm

/-- Two shards, and a hash that sends all keys to the first. -/
def sampleConfig : SessionConfig where
  hashKey _ := 0
  shardBits := 1
  routeMode := .sessionPrefix
  sessionMode := rfl

/-- `s:a:c:0` -/
def sampleKey : SessionKey := ⟨[97], [48]⟩

/-- Slices without route, slices with route, and a delete of the same key. -/
def mixedSlices : List TimedCall :=
  [{ call := .sessionSlices sampleKey.session [(⟨sampleKey, rfl⟩, [1])] },
    { call := .routedSessionSlices sampleKey.session [(⟨sampleKey, rfl⟩, [2])] },
    { call := .delete sampleKey false }]

/-- What a reader answers, and what it should, after so many calls. -/
def sampleAnswer (reader : SessionReader) (count : ℕ) : List (Option Bytes) × Option Bytes :=
  let state := run sampleConfig (mixedSlices.take count)
  ((reader.answer sampleConfig state.store 0).1,
    visibleValue 0 (state.written sampleKey.bytes))

/-- The first write is missed by the routed session get, the second by the point get, and after
the delete the second value comes back. -/
theorem mixedSlices_disagree :
    sampleAnswer (.routedSessionGet sampleKey.session [⟨sampleKey, rfl⟩]) 1 = ([none], some [1]) ∧
      sampleAnswer (.get sampleKey) 2 = ([some [1]], some [2]) ∧
      sampleAnswer (.get sampleKey) 3 = ([some [2]], none) := by
  decide +kernel

end SessionState
end ShardKv
