import ShardKv.Persistence.ShardView

/-!
# What a shard logs

Every turn of the worker is, for each key it touches, an event on the key's
cell; the records it appends for the key are the edits of that event.
-/
namespace ShardKv

open List ExpirationChange CellEvent

/-- The record written for a change of the deadline, given the live entry. -/
def ExpirationChange.editOf (change : ExpirationChange) (live : Option StoredEntry) :
    Option EntryEdit :=
  match change with
  | .keep => none
  | .expireAt expireAtMs => if live.isSome then some (.amend (some expireAtMs)) else none
  | .persist =>
    if live.any fun entry => entry.expireAtMs.isSome then some (.amend none) else none

def ShardOperation.editOf (op : ShardOperation) (live : Option StoredEntry) : Option EntryEdit :=
  match op with
  | .set key value expireAtMs =>
    some (.put { key, value := value.intoShared, expireAtMs, governance := none })
  | .delete _ => some .drop
  | .getEx _ expiration => expiration.editOf live
  | .expire _ expireAtMs =>
    ((expireAtMs.map expireAt).getD .persist).editOf live
  | .get _ => none
  | .exists _ => none
  | .ttl _ _ => none

theorem ExpirationChange.editOf_none (change : ExpirationChange) : change.editOf none = none := by
  cases change <;> rfl

namespace ShardEvent

/-- The sweep touches every key. -/
def touches (key : Bytes) (event : ShardEvent) : Bool :=
  match event.turn with
  | .execute op => decide (op.key = key)
  | .maintenance => true

def cellEvent (event : ShardEvent) : CellEvent StoredEntry (Option ℕ) where
  time := event.nowMs
  edit live := match event.turn with
    | .execute op => op.editOf live
    | .maintenance => none
  edit_none_ne_amend := by
    intro change
    cases event.turn with
    | maintenance => exact (Option.some_ne_none _).symm
    | execute op =>
      cases op with
      | set key value expireAtMs =>
        intro h
        cases h
      | delete key =>
        intro h
        cases h
      | getEx key expiration | expire key expireAtMs =>
        simp only [ShardOperation.editOf, editOf_none]
        exact (Option.some_ne_none _).symm
      | get key | «exists» key | ttl key millis => exact (Option.some_ne_none _).symm

end ShardEvent

/-- The times and edits of a list of records. -/
def stamped (records : List MutationRecord) : List (ℕ × EntryEdit) :=
  records.map fun record => (record.timestampMs, record.edit)

@[simp] theorem stamped_append (front rest : List MutationRecord) :
    stamped (front ++ rest) = stamped front ++ stamped rest :=
  map_append

namespace ShardState

open FlatMap

/-- One turn: the records it adds are those of this shard, and under every key
that it touches map and log move as the event on the cell does. -/
structure Handled (state state' : ShardState) (event : ShardEvent)
    (added : List MutationRecord) : Prop where
  shardId : state'.shardId = state.shardId
  plain : Plain state'.map
  wal : ∀ records, state.wal = some records → state'.wal = some (records ++ added)
  owned : ∀ record ∈ added, record.shardId = state.shardId
  keyed : ∀ record ∈ added, ∃ op, event.turn = .execute op ∧ op.key = record.key
  view_touched : ∀ key, event.touches key = true →
    state'.map.view key = event.cellEvent.step redate entryLifetime (state.map.view key)
  log_touched : ∀ key, event.touches key = true →
    stamped (recordsOf key added) = event.cellEvent.logged entryLifetime (state.map.view key)
  view_untouched : ∀ key, event.touches key = false → state'.map.view key = state.map.view key
  log_untouched : ∀ key, event.touches key = false → recordsOf key added = []

/-- The record an append writes. -/
def nextRecord (state : ShardState) (timestampMs : ℕ) (op : MutationOp) (key value : Bytes)
    (expireAtMs : Option ℕ) : MutationRecord :=
  { shardId := state.shardId, sequence := state.sequence + 1, timestampMs, op, key, value,
    expireAtMs, governance := none }

section

variable (state : ShardState) (timestampMs : ℕ) (op : MutationOp) (key value : Bytes)
    (expireAtMs : Option ℕ)

theorem append_map : (state.append timestampMs op key value expireAtMs).map = state.map := by
  rw [append]
  cases state.wal <;> rfl

theorem append_shardId :
    (state.append timestampMs op key value expireAtMs).shardId = state.shardId := by
  rw [append]
  cases state.wal <;> rfl

end

variable {state : ShardState} {op : ShardOperation} {nowMs : ℕ} {outside : Outside}

theorem handled_silent {map' : FlatMap}
    (hedit : op.editOf (entryLifetime.purge nowMs (state.map.view op.key)) = none)
    (hupdated : Updated state.map map' op.key (entryLifetime.purge nowMs (state.map.view op.key))) :
    Handled state { state with map := map' } { turn := .execute op, nowMs, outside } [] where
  shardId := rfl
  plain := hupdated.plain
  wal records h := by rw [append_nil, h]
  owned _ hrecord := by cases hrecord
  keyed _ hrecord := by cases hrecord
  view_touched key htouched := by
    have hkey : op.key = key := of_decide_eq_true htouched
    subst hkey
    refine hupdated.view_self.trans ?_
    simp only [step, ShardEvent.cellEvent, hedit]
    rfl
  log_touched key htouched := by
    have hkey : op.key = key := of_decide_eq_true htouched
    subst hkey
    simp only [logged, ShardEvent.cellEvent, hedit]
    rfl
  view_untouched key huntouched := by
    have hkey : key ≠ op.key := fun h => of_decide_eq_false huntouched h.symm
    exact hupdated.view_other key hkey
  log_untouched _ _ := rfl

/-- An operation that changes one cell and appends the record of that change. -/
theorem handled_append (op : ShardOperation) {map' : FlatMap} {kind : MutationOp}
    {value : Bytes} {expireAtMs : Option ℕ}
    (hedit : op.editOf (entryLifetime.purge nowMs (state.map.view op.key)) =
      some (state.nextRecord nowMs kind op.key value expireAtMs).edit)
    (hupdated : Updated state.map map' op.key
      ((state.nextRecord nowMs kind op.key value expireAtMs).edit.apply redate
        (entryLifetime.purge nowMs (state.map.view op.key)))) :
    Handled state ({ state with map := map' }.append nowMs kind op.key value expireAtMs)
      { turn := .execute op, nowMs, outside }
      [state.nextRecord nowMs kind op.key value expireAtMs] where
  shardId := append_shardId ..
  plain := by
    rw [append_map]
    exact hupdated.plain
  wal records hrecords := by
    simp only [append, hrecords]
    rfl
  owned other hother := by
    rw [mem_singleton.mp hother]
    rfl
  keyed other hother := by
    rw [mem_singleton.mp hother]
    exact ⟨op, rfl, rfl⟩
  view_touched key htouched := by
    have hself : op.key = key := of_decide_eq_true htouched
    subst hself
    rw [append_map, hupdated.view_self, step]
    simp only [ShardEvent.cellEvent, hedit]
    rfl
  log_touched key htouched := by
    have hself : op.key = key := of_decide_eq_true htouched
    subst hself
    have hmine : (state.nextRecord nowMs kind op.key value expireAtMs).key = op.key := rfl
    rw [recordsOf_cons, if_pos hmine, logged]
    simp only [ShardEvent.cellEvent, hedit]
    rfl
  view_untouched key huntouched := by
    have hother : key ≠ op.key := fun h => of_decide_eq_false huntouched h.symm
    rw [append_map]
    exact hupdated.view_other key hother
  log_untouched key huntouched := by
    have hother : (state.nextRecord nowMs kind op.key value expireAtMs).key ≠ key :=
      of_decide_eq_false huntouched
    rw [recordsOf_cons, if_neg hother]
    rfl

theorem handled_set (hplain : Plain state.map) (hwal : state.wal.isSome = true) (key : Bytes)
    (value : ShardValue) (expireAtMs : Option ℕ) :
    ∃ added, Handled state (state.setAndAppendWal outside key value expireAtMs nowMs)
      { turn := .execute (.set key value expireAtMs), nowMs, outside } added := by
  have hset : state.setAndAppendWal outside key value expireAtMs nowMs = { state with
        map := state.map.setBytesHashed outside key value.intoShared expireAtMs nowMs }.append
          nowMs .set key value.intoShared expireAtMs := by
    exact if_pos hwal
  rw [hset]
  exact ⟨_, handled_append (.set key value expireAtMs) rfl
    (hplain.updated_set outside nowMs value.intoShared expireAtMs)⟩

theorem map_amend_none {cell : Option StoredEntry}
    (h : (cell.any fun entry => entry.expireAtMs.isSome) = false) :
    cell.map (redate.amend none) = cell := by
  cases cell with
  | none => rfl
  | some entry =>
    have hnone : entry.expireAtMs = none := Option.not_isSome_iff_eq_none.mp (by simpa using h)
    rw [Option.map_some, redate, ← hnone]

theorem handled_expiration (hplain : Plain state.map) (op : ShardOperation)
    {expiration : ExpirationChange} (hkeep : expiration ≠ .keep)
    (hop : op.editOf (entryLifetime.purge nowMs (state.map.view op.key)) =
      expiration.editOf (entryLifetime.purge nowMs (state.map.view op.key))) :
    ∃ added, Handled state (state.applyExpirationChange op.key expiration nowMs).2
      { turn := .execute op, nowMs, outside } added := by
  cases expiration with
  | keep => exact absurd rfl hkeep
  | expireAt expireAtMs =>
    obtain ⟨hchanged, hupdated⟩ := hplain.expire_spec nowMs op.key expireAtMs
    unfold applyExpirationChange
    dsimp only
    rw [hchanged]
    cases hlive : entryLifetime.purge nowMs (state.map.view op.key) with
    | none =>
      rw [hlive] at hop hupdated
      exact ⟨[], handled_silent (hlive ▸ hop) (hlive ▸ hupdated)⟩
    | some entry =>
      rw [hlive] at hop
      exact ⟨_, handled_append op (hlive ▸ hop) hupdated⟩
  | persist =>
    obtain ⟨hchanged, hupdated⟩ := hplain.persist_spec nowMs op.key
    unfold applyExpirationChange
    dsimp only
    rw [hchanged]
    rw [editOf] at hop
    cases hdated : (entryLifetime.purge nowMs (state.map.view op.key)).any
        fun entry => entry.expireAtMs.isSome with
    | true =>
      rw [hdated] at hop
      exact ⟨_, handled_append op hop hupdated⟩
    | false =>
      rw [hdated] at hop
      rw [map_amend_none hdated] at hupdated
      exact ⟨[], handled_silent hop hupdated⟩

/-- A turn may begin by purging the key it is about. -/
theorem Handled.after_purge {state' : ShardState} {map' : FlatMap} {added : List MutationRecord}
    (hpurged : Updated state.map map' op.key (entryLifetime.purge nowMs (state.map.view op.key)))
    (h : Handled { state with map := map' } state' { turn := .execute op, nowMs, outside } added) :
    Handled state state' { turn := .execute op, nowMs, outside } added where
  shardId := h.shardId
  plain := h.plain
  wal := h.wal
  owned := h.owned
  keyed := h.keyed
  view_touched key htouched := by
    have hself : op.key = key := of_decide_eq_true htouched
    subst hself
    rw [h.view_touched op.key htouched, hpurged.view_self]
    exact step_purge _ _
  log_touched key htouched := by
    have hself : op.key = key := of_decide_eq_true htouched
    subst hself
    rw [h.log_touched op.key htouched, hpurged.view_self]
    exact logged_purge _ _
  view_untouched key huntouched := by
    have hother : key ≠ op.key := fun heq => of_decide_eq_false huntouched heq.symm
    exact (h.view_untouched key huntouched).trans (hpurged.view_other key hother)
  log_untouched := h.log_untouched

theorem handled_execute (hplain : Plain state.map) (hwal : state.wal.isSome = true)
    (op : ShardOperation) :
    ∃ added, Handled state (state.execute outside op nowMs).2
      { turn := .execute op, nowMs, outside } added := by
  cases op with
  | get key => exact ⟨[], handled_silent rfl (hplain.get_spec outside nowMs key).2⟩
  | «exists» key => exact ⟨[], handled_silent rfl (hplain.updated_exists nowMs key)⟩
  | ttl key millis =>
    cases millis with
    | true => exact ⟨[], handled_silent rfl (hplain.updated_ttlOf nowMs key false)⟩
    | false => exact ⟨[], handled_silent rfl (hplain.updated_ttlOf nowMs key true)⟩
  | set => exact handled_set hplain hwal ..
  | delete key =>
    exact ⟨_, handled_append (.delete key) rfl (.of_edits hplain
      (deleteHashedInternal_edits hplain.toQuiet key .explicit)
      (deleteHashedInternal_accounted hplain.accounted .explicit) nofun)⟩
  | expire key expireAtMs =>
    cases expireAtMs with
    | none => exact handled_expiration hplain (.expire key none) (by simp) rfl
    | some => exact handled_expiration hplain (.expire key (some _)) (by simp) rfl
  | getEx key expiration =>
    obtain ⟨hvalue, hread⟩ := hplain.get_spec outside nowMs key
    unfold execute
    dsimp only
    split_ifs with hchange
    · have hnested : ∃ added, Handled { state with map := (state.map.get outside key nowMs).2 }
          ({ state with map := (state.map.get outside key nowMs).2 }.applyExpirationChange key
            expiration nowMs).2
          { turn := .execute (.getEx key expiration), nowMs, outside } added :=
        handled_expiration hread.plain (.getEx key expiration) hchange.2 rfl
      obtain ⟨added, hadded⟩ := hnested
      exact ⟨added, Handled.after_purge hread hadded⟩
    · refine ⟨[], handled_silent ?_ hread⟩
      change expiration.editOf (entryLifetime.purge nowMs (state.map.view key)) = none
      cases hlive : entryLifetime.purge nowMs (state.map.view key) with
      | none => exact editOf_none expiration
      | some entry =>
        have hsome : (state.map.get outside key nowMs).1.isSome = true := by
          rw [hvalue, hlive]
          rfl
        have hkeep : expiration = .keep := by
          by_contra hother
          exact hchange ⟨hsome, hother⟩
        rw [hkeep]
        rfl

theorem handled_maintenance (hplain : Plain state.map) :
    Handled state { state with map := (state.map.processMaintenance outside nowMs).2 }
      { turn := .maintenance, nowMs, outside } [] where
  shardId := rfl
  plain := (hplain.maintenance_spec outside nowMs).1
  wal records h := by rw [append_nil, h]
  owned _ hrecord := by cases hrecord
  keyed _ hrecord := by cases hrecord
  view_touched key _ := (hplain.maintenance_spec outside nowMs).2 key
  log_touched _ _ := rfl
  view_untouched _ huntouched := by cases huntouched
  log_untouched _ _ := rfl

theorem handled (hplain : Plain state.map) (hwal : state.wal.isSome = true) (event : ShardEvent) :
    ∃ added, Handled state (state.handle event) event added := by
  obtain ⟨turn, nowMs, outside⟩ := event
  cases turn with
  | execute op => exact handled_execute hplain hwal op
  | maintenance => exact ⟨[], handled_maintenance hplain⟩

/-- The events of a history on the cell of one key. -/
def cellEvents (key : Bytes) (events : List ShardEvent) : List (CellEvent StoredEntry (Option ℕ)) :=
  (events.filter (ShardEvent.touches key)).map ShardEvent.cellEvent

/-- Along a whole history, map and log under each key follow the events on its cell. -/
theorem run_spec (events : List ShardEvent) : ∀ (state : ShardState) (log : List MutationRecord),
    Plain state.map → state.wal = some log →
    Plain (run state events).map ∧ (run state events).shardId = state.shardId ∧
      ∃ added, (run state events).wal = some (log ++ added) ∧
        (∀ record ∈ added, record.shardId = state.shardId ∧
          ∃ event ∈ events, ∃ op, event.turn = .execute op ∧ op.key = record.key) ∧
        ∀ key, (run state events).map.view key =
              (CellEvent.run redate entryLifetime (cellEvents key events) (state.map.view key)).1 ∧
            stamped (recordsOf key added) =
              (CellEvent.run redate entryLifetime (cellEvents key events)
                (state.map.view key)).2 := by
  induction events with
  | nil =>
    intro state log hplain hwal
    refine ⟨hplain, rfl, [], ?_, ?_, fun _ => ⟨rfl, rfl⟩⟩
    · rw [append_nil]
      exact hwal
    · intro record hrecord
      cases hrecord
  | cons event events ih =>
    intro state log hplain hwal
    obtain ⟨first, hfirst⟩ := handled hplain (by rw [hwal]; rfl) event
    obtain ⟨hplain', hid, rest, hrest, howned, hkeys⟩ :=
      ih (state.handle event) (log ++ first) hfirst.plain (hfirst.wal log hwal)
    refine ⟨hplain', hid.trans hfirst.shardId, first ++ rest, ?_, ?_, ?_⟩
    · rw [← append_assoc]
      exact hrest
    · intro record hrecord
      rcases mem_append.mp hrecord with hhere | hlater
      · exact ⟨hfirst.owned record hhere, event, mem_cons_self, hfirst.keyed record hhere⟩
      · obtain ⟨hmine, source, hsource, hop⟩ := howned record hlater
        exact ⟨hmine.trans hfirst.shardId, source, mem_cons_of_mem event hsource, hop⟩
    · intro key
      obtain ⟨hview, hlog⟩ := hkeys key
      cases htouched : event.touches key with
      | true =>
        have hevents : cellEvents key (event :: events) =
            event.cellEvent :: cellEvents key events := by
          rw [cellEvents, filter_cons_of_pos htouched]
          rfl
        rw [hfirst.view_touched key htouched] at hview hlog
        rw [hevents, run, recordsOf_append, stamped_append,
          hfirst.log_touched key htouched, hlog]
        exact ⟨hview, rfl⟩
      | false =>
        have hevents : cellEvents key (event :: events) = cellEvents key events := by
          rw [cellEvents, filter_cons_of_neg (by rw [htouched]; exact Bool.false_ne_true)]
          rfl
        rw [hfirst.view_untouched key htouched] at hview hlog
        rw [hevents, recordsOf_append, hfirst.log_untouched key htouched, nil_append]
        exact ⟨hview, hlog⟩

end ShardState
end ShardKv
