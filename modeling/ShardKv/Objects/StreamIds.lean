import ShardKv.Foundations.FrameLog
import ShardKv.Foundations.History
import ShardKv.Protocol.RouteKeys
import Mathlib.Data.Prod.Lex

/-!
# The ids of a stream

New entries go to the end of a stream, and their ids are checked against the last one. Two kinds
of commands skip the check: an automatic id is taken from the clock as it is, and the last id can
be set to anything. While neither goes back, the ids of every stream increase.

Streams are kept as states. The store holds their encodings, from which each command decodes them.
-/
namespace ShardKv

open RouteKeys

structure StreamId where
  ms : ℕ
  seq : ℕ
  deriving DecidableEq, Repr

namespace StreamId

theorem pair_injective : Function.Injective fun id : StreamId => toLex (id.ms, id.seq) := by
  rintro ⟨ms, seq⟩ ⟨ms', seq'⟩ h
  cases toLex.injective h
  rfl

instance : LinearOrder StreamId := LinearOrder.lift' _ pair_injective

theorem lt_iff {id id' : StreamId} :
    id < id' ↔ id.ms < id'.ms ∨ id.ms = id'.ms ∧ id.seq < id'.seq := Prod.Lex.toLex_lt_toLex

end StreamId

structure StreamEntry where
  id : StreamId
  fields : List (Bytes × Bytes)
  deriving DecidableEq

structure StreamState where
  lastId : StreamId := ⟨0, 0⟩
  entries : List StreamEntry := []
  deriving DecidableEq

structure StreamTrim where
  maxLen : ℕ
  approximate : Bool

namespace StreamState

def maxU64 : ℕ := 2 ^ 64 - 1

/-- `saturating_add(1)` -/
def nextSeq (seq : ℕ) : ℕ := min (seq + 1) maxU64

def parseU64 (raw : Bytes) : Except String ℕ :=
  (parseAsciiUsize raw).elim (.error "ERR Invalid stream ID specified") .ok

def parseStreamId (raw : Bytes) : Except String StreamId :=
  match raw.splitOn 45 with
  | [ms, seq] => do return ⟨← parseU64 ms, ← parseU64 seq⟩
  | _ => .error "ERR Invalid stream ID specified"

def validateNewId (lastId id : StreamId) : Except String StreamId :=
  if id.ms = 0 ∧ id.seq = 0 then
    .error "ERR The ID specified in XADD must be greater than 0-0"
  else if id ≤ lastId then
    .error "ERR The ID specified in XADD is equal or smaller than the target stream top item"
  else .ok id

/-- An automatic id is not validated. -/
def nextStreamId (lastId : StreamId) (raw : Bytes) (nowMs : ℕ) : Except String StreamId :=
  if raw = asciiText "*" then
    .ok ⟨nowMs, if lastId.ms < nowMs then 0 else nextSeq lastId.seq⟩
  else if asciiText "-*" <:+ raw then do
    let ms ← parseU64 (raw.take (raw.length - 2))
    validateNewId lastId ⟨ms, if ms = lastId.ms then nextSeq lastId.seq else 0⟩
  else do validateNewId lastId (← parseStreamId raw)

def append (stream : StreamState) (id : StreamId) (fields : List (Bytes × Bytes)) : StreamState where
  lastId := id
  entries := stream.entries ++ [⟨id, fields⟩]

def approximateTrimThreshold (maxLen : ℕ) : ℕ :=
  if maxLen = 0 then 0 else min (maxLen + max (maxLen / 10) 64) maxU64

def trimRequiresRebuild (trim : Option StreamTrim) (nextLen : ℕ) : Bool :=
  trim.any fun trim => trim.maxLen < nextLen &&
    (!trim.approximate || approximateTrimThreshold trim.maxLen < nextLen)

def trimStream (stream : StreamState) (maxLen : ℕ) : ℕ × StreamState :=
  let removed := stream.entries.length - maxLen
  (removed, { stream with entries := stream.entries.drop removed })

def tryFastAppendStream (existing : Option StreamState) (idArg : Bytes)
    (fields : List (Bytes × Bytes)) (trim : Option StreamTrim) (nowMs : ℕ) :
    Except String (Option (StreamId × StreamState)) := do
  let stream := existing.getD {}
  let id ← nextStreamId stream.lastId idArg nowMs
  if 2 ^ 32 ≤ stream.entries.length + 1 then .error "ERR stream length overflow"
  else if trimRequiresRebuild trim (stream.entries.length + 1) then return none
  else return some (id, stream.append id fields)

/-- A stream that has to be trimmed reads the clock a second time. -/
def xaddUpdate (idArg : Bytes) (fields : List (Bytes × Bytes)) (trim : Option StreamTrim)
    (nowMs laterMs : ℕ) (existing : Option StreamState) :
    Except String (StreamId × StreamState) := do
  match ← tryFastAppendStream existing idArg fields trim nowMs with
  | some appended => return appended
  | none =>
    let stream := existing.getD {}
    let id ← nextStreamId stream.lastId idArg laterMs
    let stream := stream.append id fields
    return (id, trim.elim stream fun trim => (stream.trimStream trim.maxLen).2)

def xdelUpdate (ids : List Bytes) (existing : Option StreamState) :
    Except String (ℕ × StreamState) := do
  let stream := existing.getD {}
  let ids ← ids.mapM parseStreamId
  let kept := stream.entries.filter fun entry => entry.id ∉ ids
  return (stream.entries.length - kept.length, { stream with entries := kept })

def xtrimUpdate (maxLen : ℕ) (existing : Option StreamState) : Except String (ℕ × StreamState) :=
  .ok ((existing.getD {}).trimStream maxLen)

def setStreamLastId (raw : Bytes) (existing : Option StreamState) :
    Except String (Unit × StreamState) := do
  let id ← parseStreamId raw
  return ((), { existing.getD {} with lastId := id })

/-- The ids increase in storage order, so that they differ, and none is behind the last id. -/
structure Ordered (stream : StreamState) : Prop where
  increasing : stream.entries.Pairwise fun entry entry' => entry.id < entry'.id
  le_last : ∀ entry ∈ stream.entries, entry.id ≤ stream.lastId

/-- The clock is past the last id, or at it with a number left. -/
def Follows (lastId : StreamId) (nowMs : ℕ) : Prop :=
  lastId.ms < nowMs ∨ lastId.ms = nowMs ∧ lastId.seq < maxU64

variable {stream : StreamState} {id : StreamId}

theorem Ordered.sublist (h : stream.Ordered) {entries : List StreamEntry}
    (hsub : entries.Sublist stream.entries) : Ordered { stream with entries } :=
  ⟨h.increasing.sublist hsub, fun entry hentry => h.le_last entry (hsub.subset hentry)⟩

theorem Ordered.append (h : stream.Ordered) (hid : stream.lastId < id)
    (fields : List (Bytes × Bytes)) : (stream.append id fields).Ordered := by
  have hbelow : ∀ entry ∈ stream.entries, entry.id < id := fun entry hentry =>
    (h.le_last entry hentry).trans_lt hid
  constructor
  · refine List.pairwise_append.mpr ⟨h.increasing, List.pairwise_singleton _ _, ?_⟩
    intro entry hentry new hnew
    rw [List.mem_singleton.mp hnew]
    exact hbelow entry hentry
  · intro entry hentry
    rcases List.mem_append.mp hentry with hold | hnew
    · exact (hbelow entry hold).le
    · rw [List.mem_singleton.mp hnew]
      exact le_rfl

theorem lt_of_validateNewId {lastId new : StreamId} (h : validateNewId lastId new = .ok id) :
    lastId < id := by
  rw [validateNewId] at h
  split_ifs at h with hzero hle
  cases h
  exact not_le.mp hle

/-- A new id is behind the last one, if an automatic one is. -/
theorem lt_nextStreamId {lastId : StreamId} {raw : Bytes} {nowMs : ℕ}
    (h : nextStreamId lastId raw nowMs = .ok id)
    (hauto : raw = asciiText "*" → Follows lastId nowMs) : lastId < id := by
  rw [nextStreamId] at h
  split at h
  next hraw =>
    cases h
    rw [StreamId.lt_iff]
    rcases hauto hraw with hlt | ⟨rfl, hseq⟩
    · exact .inl hlt
    · refine .inr ⟨rfl, ?_⟩
      rw [if_neg (lt_irrefl _), nextSeq]
      exact lt_min (Nat.lt_succ_self _) hseq
  next =>
    split at h <;> obtain ⟨_, -, h⟩ := Except.bind_eq_ok.mp h <;> exact lt_of_validateNewId h

theorem xaddUpdate_ordered {idArg : Bytes} {fields : List (Bytes × Bytes)}
    {trim : Option StreamTrim} {nowMs laterMs : ℕ} {existing : Option StreamState}
    (hold : (existing.getD {}).Ordered)
    (hauto : idArg = asciiText "*" → Follows (existing.getD {}).lastId nowMs ∧
      Follows (existing.getD {}).lastId laterMs)
    (h : xaddUpdate idArg fields trim nowMs laterMs existing = .ok (id, stream)) :
    stream.Ordered := by
  obtain ⟨fast, hfast, h⟩ := Except.bind_eq_ok.mp h
  obtain ⟨first, hfirst, hfast⟩ := Except.bind_eq_ok.mp hfast
  split_ifs at hfast
  · cases hfast
    obtain ⟨second, hsecond, h⟩ := Except.bind_eq_ok.mp h
    cases h
    have happended := hold.append (lt_nextStreamId hsecond fun hraw => (hauto hraw).2) fields
    cases trim with
    | none => exact happended
    | some => exact happended.sublist (List.drop_sublist _ _)
  · cases hfast
    cases h
    exact hold.append (lt_nextStreamId hfirst fun hraw => (hauto hraw).1) fields

end StreamState

open StreamState

/-- The streams of a store. -/
abbrev StreamStore := Bytes → Option StreamState

inductive StreamCommand where
  | xadd (key idArg : Bytes) (fields : List (Bytes × Bytes)) (trim : Option StreamTrim)
      (nowMs laterMs : ℕ)
  | xdel (key : Bytes) (ids : List Bytes)
  | xtrim (key : Bytes) (maxLen : ℕ)
  | xsetid (key id : Bytes)
  | xgroupCreate (key id : Bytes) (mkstream : Bool)
  | xgroupSetid (key id : Bytes)

namespace StreamStore

/-- `transform_string_value_no_ttl`: what is decoded, changed and encoded again replaces the value,
unless there is an error. -/
def transform {ρ : Type} (store : StreamStore) (key : Bytes)
    (update : Option StreamState → Except String (ρ × StreamState)) : Except String ρ × StreamStore :=
  match update (store key) with
  | .ok (reply, stream) => (.ok reply, Function.update store key (some stream))
  | .error message => (.error message, store)

def step (store : StreamStore) : StreamCommand → StreamStore
  | .xadd key idArg fields trim nowMs laterMs =>
    (store.transform key (xaddUpdate idArg fields trim nowMs laterMs)).2
  | .xdel key ids => (store.transform key (xdelUpdate ids)).2
  | .xtrim key maxLen => (store.transform key (xtrimUpdate maxLen)).2
  | .xsetid key id => (store.transform key (setStreamLastId id)).2
  | .xgroupCreate key id mkstream =>
    if mkstream || (store key).isSome then (store.transform key (setStreamLastId id)).2 else store
  | .xgroupSetid key id => (store.transform key (setStreamLastId id)).2

/-- No stored id is behind the new last id. -/
def SetsForward (store : StreamStore) (key raw : Bytes) : Prop :=
  ∀ id, parseStreamId raw = .ok id → ∀ entry ∈ ((store key).getD {}).entries, entry.id ≤ id

/-- An automatic id meets a clock that is not behind the last id, and the last id is not set below
the id of an entry. -/
def Forward (store : StreamStore) : StreamCommand → Prop
  | .xadd key idArg _ _ nowMs laterMs => idArg = asciiText "*" →
    Follows ((store key).getD {}).lastId nowMs ∧ Follows ((store key).getD {}).lastId laterMs
  | .xsetid key id => store.SetsForward key id
  | .xgroupCreate key id _ => store.SetsForward key id
  | .xgroupSetid key id => store.SetsForward key id
  | _ => True

/-- Every stream, and one that is not there yet. -/
def AllOrdered (store : StreamStore) : Prop := ∀ key, ((store key).getD {}).Ordered

variable {store : StreamStore}

theorem AllOrdered.transform {ρ : Type} {key : Bytes}
    {update : Option StreamState → Except String (ρ × StreamState)} (h : store.AllOrdered)
    (hupdate : ∀ reply stream, update (store key) = .ok (reply, stream) → stream.Ordered) :
    (store.transform key update).2.AllOrdered := by
  intro other
  rw [StreamStore.transform]
  split
  next reply stream hok =>
    by_cases hother : other = key
    · subst hother
      simpa using hupdate reply stream hok
    · simpa [hother] using h other
  next => exact h other

theorem AllOrdered.setLastId (h : store.AllOrdered) {key id : Bytes}
    (hforward : store.SetsForward key id) :
    (store.transform key (setStreamLastId id)).2.AllOrdered := by
  refine h.transform fun reply stream hok => ?_
  obtain ⟨new, hnew, hok⟩ := Except.bind_eq_ok.mp hok
  cases hok
  exact ⟨(h key).increasing, hforward new hnew⟩

theorem AllOrdered.step (h : store.AllOrdered) {command : StreamCommand}
    (hforward : store.Forward command) : (store.step command).AllOrdered := by
  cases command with
  | xadd => exact h.transform fun id stream hok => xaddUpdate_ordered (h _) hforward hok
  | xdel key =>
    refine h.transform fun reply stream hok => ?_
    obtain ⟨parsed, -, hok⟩ := Except.bind_eq_ok.mp hok
    cases hok
    exact (h key).sublist List.filter_sublist
  | xtrim key =>
    refine h.transform fun reply stream hok => ?_
    cases hok
    exact (h key).sublist (List.drop_sublist _ _)
  | xsetid => exact h.setLastId hforward
  | xgroupCreate =>
    rw [StreamStore.step]
    split
    · exact h.setLastId hforward
    · exact h
  | xgroupSetid => exact h.setLastId hforward

/-- The store after some commands. -/
def run (commands : List StreamCommand) : StreamStore := commands.foldl step fun _ => none

end StreamStore
end ShardKv
