import ShardKv.Foundations.Scatter
import ShardKv.Storage.SessionFlat

/-!
# Readers of session keys

Without slabs every reader ends at the flat map of the shard of its key, whether it
takes the keys one by one, as a batch of one shard or grouped by shard.
-/
namespace ShardKv.Flat

open FlatMap EmbeddedStore List
variable {config : SessionConfig} {state : SessionState} {key : SessionKey}

theorem readFlat (h : Flat config state) (key : SessionKey) :
    (state.store.readAt (config.home key) (·.getRefHashedFlat key.bytes state.clock)).1 =
        visibleValue state.clock (state.written key.bytes) ∧
      Flat config { state with
        store := (state.store.readAt (config.home key)
          (·.getRefHashedFlat key.bytes state.clock)).2 } := by
  have hshard := h.shards (config.home key)
  have hholds := h.holds key
  obtain ⟨hedits, hvalue⟩ := getRefHashed_spec hshard.quiet key.bytes state.clock hshard.accounted
  constructor
  · change (FlatMap.getRefHashed _ _ _).1 = _
    rw [hvalue, hholds.unexpired, readableValue_map]
    rfl
  · apply h.keep (hshard.withMap hedits.quiet (getRefHashed_accounted _ hshard.accounted)) hedits
    exact Holds.of_visible hholds.unexpired

variable (nowMs : ℕ)

/-- A read that takes the flat map whenever there is no slab. -/
def ReadsFlat (read : EmbeddedShard → Bytes → Option Bytes × EmbeddedShard) : Prop :=
  ∀ shard, FlatShard shard → ∀ key, read shard key = shard.getRefHashedFlat key nowMs

section Loops

variable {α : Type} {read : EmbeddedShard → Bytes → Option Bytes × EmbeddedShard}
  {nowMs shardId : ℕ} {written : Bytes → Option Written}

/-- The items of a request are session keys of the shard that is read. -/
def HomeItems (config : SessionConfig) (shardId : ℕ) (items : List (Bytes × ℕ)) : Prop :=
  ∀ item ∈ items, ∃ key, key.bytes = item.1 ∧ config.home key = shardId

section

variable (record : α → ℕ → Option Bytes → α) (hread : ReadsFlat nowMs read)
include hread

theorem readKeys (items : List (Bytes × ℕ)) (hitems : HomeItems config shardId items) :
    ∀ start : α × EmbeddedStore, Flat config { store := start.2, written, clock := nowMs } →
      (EmbeddedStore.readKeys read record shardId items start).1 =
          items.foldl (fun acc item => record acc item.2 (visibleValue nowMs (written item.1)))
            start.1 ∧
        Flat config {
          store := (EmbeddedStore.readKeys read record shardId items start).2
          written, clock := nowMs } := by
  induction items with
  | nil => exact fun _ h => ⟨rfl, h⟩
  | cons item items ih =>
    intro start h
    obtain ⟨key, hkey, hhome⟩ := hitems item mem_cons_self
    have hstep := h.readFlat key
    have hsame : start.2.readAt shardId (read · item.1) =
        start.2.readAt (config.home key) (·.getRefHashedFlat key.bytes nowMs) := by
      have hshard := h.shards shardId
      simp only [readAt, hhome, hkey, hread _ hshard]
    rw [← hsame, hkey] at hstep
    have hrest := ih (fun other hother => hitems other (mem_cons_of_mem _ hother))
      (record start.1 item.2 (start.2.readAt shardId (read · item.1)).1,
        (start.2.readAt shardId (read · item.1)).2) hstep.2
    rw [foldl_cons, ← hstep.1]
    exact hrest

theorem readShards (groups : ℕ → List (Bytes × ℕ)) (shardIds : List ℕ)
    (hgroups : ∀ shardId ∈ shardIds, HomeItems config shardId (groups shardId)) :
    ∀ start : α × EmbeddedStore, Flat config { store := start.2, written, clock := nowMs } →
      (shardIds.foldl (fun out shardId =>
          EmbeddedStore.readKeys read record shardId (groups shardId) out) start).1 =
          (shardIds.flatMap groups).foldl
            (fun acc item => record acc item.2 (visibleValue nowMs (written item.1))) start.1 ∧
        Flat config {
          store := (shardIds.foldl (fun out shardId =>
            EmbeddedStore.readKeys read record shardId (groups shardId) out) start).2
          written, clock := nowMs } := by
  induction shardIds with
  | nil => exact fun _ h => ⟨rfl, h⟩
  | cons shardId shardIds ih =>
    intro start h
    obtain ⟨hvalue, hnext⟩ := readKeys record hread (groups shardId)
      (hgroups shardId mem_cons_self) start h
    have hrest := ih (fun other hother => hgroups other (mem_cons_of_mem _ hother)) _ hnext
    rw [flatMap_cons, foldl_append, ← hvalue]
    exact hrest

end
end Loops

theorem homeItems_zipIdx {shardId : ℕ} (keys : List SessionKey)
    (hhome : ∀ key ∈ keys, config.home key = shardId) :
    HomeItems config shardId (keys.map (·.bytes)).zipIdx := by
  intro item hitem
  obtain ⟨-, -, hbytes⟩ := mem_zipIdx hitem
  simp only [Nat.sub_zero, getElem_map] at hbytes
  exact ⟨_, hbytes.symm, hhome _ (getElem_mem _)⟩

/-- Pushing a value appends it to the answers so far, of which there are none at the start. -/
structure Pushes {α : Type} (content : α → List (Option Bytes)) (push : α → Option Bytes → α)
    (start : α) : Prop where
  start : content start = []
  push : ∀ acc value, content (push acc value) = content acc ++ [value]

theorem pushes_append : Pushes id (fun values (value : Option Bytes) => values ++ [value]) [] :=
  ⟨rfl, fun _ _ => rfl⟩

theorem pushes_items :
    Pushes EmbeddedBatchReadView.items EmbeddedBatchReadView.push { items := [] } :=
  ⟨rfl, fun _ value => by cases value <;> rfl⟩

variable {α : Type} {content : α → List (Option Bytes)} {push : α → Option Bytes → α} {start : α}

theorem Pushes.foldl (hpush : Pushes content push start) (answer : Bytes → Option Bytes)
    (keys : List Bytes) : ∀ (acc : α) (index : ℕ),
      content ((keys.zipIdx index).foldl (fun acc item => push acc (answer item.1)) acc) =
        content acc ++ keys.map answer := by
  induction keys with
  | nil => simp
  | cons key keys ih => simp [ih, hpush.push]

/-- The visible values of some keys, and a store that still holds them. -/
def Answers (config : SessionConfig) (state : SessionState) (keys : List SessionKey)
    (values : List (Option Bytes)) (store : EmbeddedStore) : Prop :=
  values = (keys.map (·.bytes)).map (fun key => visibleValue state.clock (state.written key)) ∧
    Flat config { state with store }

section Batches

variable {read : EmbeddedShard → Bytes → Option Bytes × EmbeddedShard} {shardId : ℕ}

section

variable (h : Flat config state) (hread : ReadsFlat state.clock read) (keys : List SessionKey)
    (hhome : ∀ key ∈ keys, config.home key = shardId)
include h hread hhome

theorem readKeys_push (hpush : Pushes content push start) :
    let out := EmbeddedStore.readKeys read (fun acc _ value => push acc value) shardId
      (keys.map (·.bytes)).zipIdx (start, state.store)
    Answers config state keys (content out.1) out.2 := by
  obtain ⟨hvalue, hflat⟩ := readKeys (fun acc _ value => push acc value) hread _
    (homeItems_zipIdx keys hhome) (start, state.store) h
  have hanswers := hpush.foldl (fun key => visibleValue state.clock (state.written key))
    (keys.map (·.bytes)) start 0
  rw [hpush.start] at hanswers
  exact ⟨(congrArg content hvalue).trans hanswers, hflat⟩

end

/-- Grouped by shard, every key has its turn. -/
theorem readGroups_content {record : α → ℕ → Option Bytes → α} (hrecord : Records content record)
    (h : Flat config state) (hread : ReadsFlat state.clock read) (keys : List SessionKey)
    (hstart : content start = List.replicate (keys.map (·.bytes)).length none) :
    let out := readGroups config read record (keys.map (·.bytes)) (start, state.store)
    Answers config state keys (content out.1) out.2 := by
  set answer := fun key => visibleValue state.clock (state.written key)
  set shardOf := fun key => config.routeHash
    (routeHashForKey config.hashKey config.routeMode config.shift key)
  set groups := fun shardId => (keys.map (·.bytes)).zipIdx.filter
    fun item => shardOf item.1 = shardId
  have hkeys : ∀ item ∈ (keys.map (·.bytes)).zipIdx, ∃ key : SessionKey,
      key.bytes = item.1 ∧ (keys.map (·.bytes))[item.2]? = some item.1 := by
    intro item hitem
    obtain ⟨-, hlt, hbytes⟩ := mem_zipIdx hitem
    simp only [Nat.sub_zero, getElem_map, Nat.zero_add, length_map] at hbytes hlt
    exact ⟨_, hbytes.symm, by simp [hlt, hbytes]⟩
  have hgroups : ∀ shardId ∈ List.range config.shardCount,
      HomeItems config shardId (groups shardId) := by
    intro shardId _ item hitem
    obtain ⟨hmem, hshard⟩ := mem_filter.mp hitem
    obtain ⟨key, hbytes, -⟩ := hkeys item hmem
    refine ⟨key, hbytes, ?_⟩
    rw [← config.routeHashForKey_eq key, hbytes]
    exact of_decide_eq_true hshard
  obtain ⟨hvalue, hflat⟩ := readShards record hread groups _ hgroups (start, state.store) h
  have htargets : ∀ item ∈ (List.range config.shardCount).flatMap groups,
      ((keys.map (·.bytes)).map answer)[item.2]? = some (answer item.1) := by
    intro item hitem
    obtain ⟨_, _, hmem⟩ := mem_flatMap.mp hitem
    obtain ⟨_, -, hget⟩ := hkeys item (mem_filter.mp hmem).1
    rw [List.getElem?_map, hget]
    rfl
  have hempty : Filled content ((keys.map (·.bytes)).map answer) [] start :=
    Filled.start (by simp [hstart])
  have hfilled := Filled.foldl hrecord answer _ htargets hempty
  refine ⟨(congrArg content hvalue).trans (hfilled.done ?_), hflat⟩
  intro index hindex
  simp only [length_map] at hindex
  have hmem : (keys[index].bytes, index) ∈ (keys.map (·.bytes)).zipIdx := by
    rw [mem_zipIdx_iff_getElem?]
    simp [hindex]
  rw [append_nil, mem_reverse, mem_map]
  refine ⟨(keys[index].bytes, index), mem_flatMap.mpr ?_, rfl⟩
  refine ⟨config.home keys[index], mem_range.mpr (config.home_lt _), ?_⟩
  exact mem_filter.mpr ⟨hmem, decide_eq_true (config.routeHashForKey_eq _)⟩

end Batches

theorem readsFlat_sessionOrFlat :
    ReadsFlat nowMs fun shard key => shard.getRefHashedSessionOrFlat key nowMs :=
  fun _ hshard key => hshard.getRefHashedSessionOrFlat key nowMs

theorem readsFlat_published :
    ReadsFlat nowMs fun shard key => shard.getRefHashedPublishedSessionOrFlat key nowMs :=
  fun _ hshard key => hshard.getRefHashedPublishedSessionOrFlat key nowMs

theorem readsFlat_flat :
    ReadsFlat nowMs fun shard key => shard.getRefHashedFlat key nowMs :=
  fun _ _ _ => rfl

/-- Without an active session the flat map is read. -/
theorem readsFlat_active {active : Option Bytes} (hactive : active = none) (nowMs : ℕ) :
    ReadsFlat nowMs fun shard key => shard.getRefHashedActiveSessionOrFlat key active nowMs := by
  rw [hactive]
  exact readsFlat_flat nowMs

theorem singleShardBatchRoute_home {keys : List SessionKey} {shardId : ℕ}
    (hroute : singleShardBatchRoute config (keys.map (·.bytes)) =
      some shardId) : ∀ key ∈ keys, config.home key = shardId := by
  unfold singleShardBatchRoute at hroute
  rw [if_neg (by simp [config.sessionMode])] at hroute
  cases keys with
  | nil => cases hroute
  | cons first rest =>
    simp only [map_cons] at hroute
    split_ifs at hroute with hall
    have hfirst : config.home first = shardId := by
      rw [config.home_eq]
      exact Option.some.inj hroute
    intro key hkey
    rcases mem_cons.mp hkey with rfl | hmem
    · exact hfirst
    · have hsame : key.session = first.session := by
        have hbytes := all_eq_true.mp hall key.bytes (mem_map_of_mem hmem)
        exact of_decide_eq_true hbytes
      rw [← hfirst, config.home_eq, config.home_eq, hsame]

theorem map_bytes_val {session : Bytes} (keys : List (KeyOf session)) :
    keys.map (·.bytes) = (keys.map (·.val)).map (·.bytes) := by
  rw [map_map]
  rfl

theorem home_val {session : Bytes} (keys : List (KeyOf session)) :
    ∀ key ∈ keys.map (·.val), config.home key = config.routeSession session := by
  intro key hkey
  obtain ⟨⟨key, hsession⟩, -, rfl⟩ := mem_map.mp hkey
  rw [config.home_eq, hsession]

section

variable (h : Flat config state)
include h

theorem batchGet (keys : List SessionKey) :
    let out := state.store.batchGet config (keys.map (·.bytes)) state.clock
    Answers config state keys out.1 out.2 := by
  unfold EmbeddedStore.batchGet
  split_ifs with hempty
  · exact ⟨by rw [hempty]; rfl, h⟩
  · cases hroute : singleShardBatchRoute config
        (keys.map (·.bytes)) with
    | some shardId =>
      exact h.readKeys_push (readsFlat_sessionOrFlat _) keys (singleShardBatchRoute_home hroute)
        pushes_append
    | none =>
      have hrecord : Records id (@List.set (Option Bytes)) := fun _ _ _ => .inl rfl
      exact readGroups_content hrecord h (readsFlat_sessionOrFlat _) keys rfl

theorem batchGetView (keys : List SessionKey) :
    let out := state.store.batchGetView config (keys.map (·.bytes)) state.clock
    Answers config state keys out.1.items out.2 := by
  unfold EmbeddedStore.batchGetView
  split_ifs with hempty
  · exact ⟨by rw [hempty]; rfl, h⟩
  · cases hroute : singleShardBatchRoute config
        (keys.map (·.bytes)) with
    | some shardId =>
      exact h.readKeys_push (readsFlat_published _) keys (singleShardBatchRoute_home hroute)
        pushes_items
    | none =>
      have hrecord : Records EmbeddedBatchReadView.items fun view index value =>
          (value.map (view.recordHit index)).getD view := by
        intro view index value
        cases value with
        | none => exact .inr ⟨rfl, rfl⟩
        | some value => exact .inl rfl
      exact readGroups_content hrecord h (readsFlat_published _) keys rfl

theorem inactive (session : Bytes) :
    (if (state.store.shards (config.routeSession session)).sessionSlots.hasSession session then
      some session else none) = none := by
  rw [(h.shards _).hasSession]
  rfl

/-- Every reader answers from the map, and its purges do not matter. -/
theorem answer (reader : SessionReader) : SessionReader.Agrees state.written state.clock reader
        (reader.answer config state.store state.clock).1 ∧
      Flat config { state with
        store := (reader.answer config state.store state.clock).2 } := by
  cases reader with
  | get key =>
    have hshard := h.shards (config.home key)
    have hread : state.store.getWithRoute config key.bytes state.clock =
        state.store.readAt (config.home key) (·.getRefHashedFlat key.bytes state.clock) := by
      simp only [getWithRoute, readAt, config.usesFlatKeyStorage_eq,
        config.shardId_routeKey, Bool.false_eq_true, if_false, hshard.getRefHashedSessionOrFlat]
    obtain ⟨hvalue, hflat⟩ := h.readFlat key
    rw [← hread] at hvalue hflat
    exact ⟨congrArg (fun value => [value]) hvalue, hflat⟩
  | view key =>
    have hshard := h.shards (config.home key)
    have hread : state.store.getViewRouted config key.bytes state.clock =
        state.store.readAt (config.home key) (·.getRefHashedFlat key.bytes state.clock) := by
      simp only [getViewRouted, readAt, config.shardId_routeKey,
        hshard.getRefHashedPublishedSessionOrFlat]
    obtain ⟨hvalue, hflat⟩ := h.readFlat key
    rw [← hread] at hvalue hflat
    exact ⟨congrArg (fun value => [value]) hvalue, hflat⟩
  | viewNoTtl key =>
    have hshard := h.shards (config.home key)
    have hread : state.store.getViewRoutedNoTtl config key.bytes =
        readableValue ((state.store.shards (config.home key)).map.entries.lookup key.bytes) := by
      simp only [getViewRoutedNoTtl, config.shardId_routeKey, hshard.publishedSession]
      rfl
    have hvalue := (h.holds key).readableValue
    rw [← hread] at hvalue
    exact ⟨hvalue.imp (congrArg fun value => [value]) (congrArg fun value => [value]), h⟩
  | preparedViewNoTtl key =>
    have hvalue := (h.holds key).readableValue
    exact ⟨hvalue.imp (congrArg fun value => [value]) (congrArg fun value => [value]), h⟩
  | batchGet keys => exact h.batchGet keys
  | batchView keys => exact h.batchGetView keys
  | sessionGet session keys =>
    have hanswer := h.readKeys_push (readsFlat_active (h.inactive session) state.clock) _
      (home_val keys) pushes_append
    rw [Answers, ← map_bytes_val] at hanswer
    exact hanswer
  | sessionView session keys =>
    have hanswer := h.readKeys_push (readsFlat_active (h.inactive session) state.clock) _
      (home_val keys) pushes_items
    rw [Answers, ← map_bytes_val] at hanswer
    exact hanswer
  | routedSessionGet session keys =>
    have hanswer := h.readKeys_push (readsFlat_flat state.clock) _ (home_val keys) pushes_append
    rw [Answers, ← map_bytes_val] at hanswer
    exact hanswer
  | routedSessionView session keys =>
    have hactive : ((batchDerivedSessionStoragePrefix (keys.map (·.bytes))).filter fun other =>
        (state.store.shards (config.routeSession session)).sessionSlots.hasSession other) =
          none := by
      apply Option.filter_eq_none_iff.mpr
      intro other _
      rw [(h.shards _).hasSession]
      exact Bool.false_ne_true
    have hanswer := h.readKeys_push (readsFlat_active hactive state.clock) _ (home_val keys)
      pushes_items
    rw [Answers, ← map_bytes_val] at hanswer
    exact hanswer

theorem readsAgree : state.ReadsAgree config :=
  fun reader _ hle => ((h.later hle).answer reader).1

end
end ShardKv.Flat
