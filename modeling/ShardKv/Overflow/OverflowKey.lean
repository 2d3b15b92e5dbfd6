import ShardKv.Storage.FlatMap

/-!
# One key of the key-value overflow store

A value moves between the resident map, the job queue, the map of pending
mutations, the remote metadata and the remote node. All of these are indexed by
key, so that the store is one state per key. The jobs of a key are kept in their
own queue: a worker lane serves the jobs of one key in the order in which they
were queued, and how it mixes different keys makes no difference to any of them.

A set holds the key gate from its write into the primary until its job is queued,
in three steps between which eviction, workers and readers can come in. Every
other step that needs the gate waits until then.
-/
namespace ShardKv

variable {ι β : Type} [DecidableEq ι] [DecidableEq β]

/-- A value as it is written, with its governance metadata and its deadline. -/
structure OverflowValue (β : Type) where
  value : β
  governance : Option β
  expireAtMs : Option ℕ
  deriving DecidableEq

def OverflowValue.isExpired (written : OverflowValue β) (nowMs : ℕ) : Bool :=
  isExpiredAt written.expireAtMs nowMs

/-- A written value under the generation of the call that wrote it. -/
structure OverflowEntry (β : Type) where
  written : OverflowValue β
  generation : ℕ
  deriving DecidableEq

structure RemoteKeyMeta (ι : Type) where
  primaryShard : ι
  expireAtMs : Option ℕ
  generation : ℕ
  handoffComplete : Bool
  isProtected : Bool
  deriving DecidableEq

inductive PendingMutation (β : Type)
  | put (value governance : Option β) (expireAtMs : Option ℕ)
  | delete (retryOnFailure : Bool)
  deriving DecidableEq

structure PendingKeyMeta (ι β : Type) where
  primaryShard : ι
  generation : ℕ
  queued : Bool
  tracksKey : Bool
  mutation : PendingMutation β
  deriving DecidableEq

/-- A delete with a completion channel has a client waiting for it. -/
inductive KvOverflowJob (β : Type)
  | put (written : OverflowValue β) (generation : ℕ)
  | delete (generation : ℕ) (completion : Bool)
  deriving DecidableEq

inductive KvOverflowCompletion (β : Type)
  | put (retryValue retryGovernance : Option β) (isProtected : Bool) (expireAtMs : Option ℕ)
      (generation : ℕ) (succeeded : Bool)
  | delete (generation : ℕ) (succeeded : Bool)
  deriving DecidableEq

/-- Where the set or delete call of a key stands. A set in progress holds the key gate, and
`forgotten` tells whether it has removed the remote metadata yet. -/
inductive ClientCall (β : Type)
  | idle
  | setting (entry : OverflowEntry β) (forgotten : Bool)
  | deleting (generation : ℕ) (present : Bool) (outcome : Option Bool)
  deriving DecidableEq

/-- Where a `get` stands. It remembers what the latest set was when it began, and when it is
finished also what the latest set was then. -/
inductive FaultIn (ι β : Type)
  | idle
  | missed (began : Option (OverflowEntry β))
  | expecting (began : Option (OverflowEntry β)) (expected : RemoteKeyMeta ι)
  | fetching (began : Option (OverflowEntry β)) (expected : RemoteKeyMeta ι)
  | fetched (began : Option (OverflowEntry β)) (expected : RemoteKeyMeta ι)
      (remote : Option (OverflowValue β))
  | finished (began ended : Option (OverflowEntry β)) (result : Option β)
  deriving DecidableEq

/-- Everything the store and its surroundings hold for one key. `retries` and `expired` are the
copies that maintenance took in its scans; `latest` is the latest successful set that was neither
deleted by a client nor seen expired, and no function of the store reads it. -/
structure OverflowKey (ι β : Type) where
  resident : Option (OverflowEntry β) := none
  remote : Option (RemoteKeyMeta ι) := none
  pending : Option (PendingKeyMeta ι β) := none
  node : Option (OverflowValue β) := none
  jobs : List (KvOverflowJob β) := []
  completions : List (KvOverflowCompletion β) := []
  retries : List (PendingKeyMeta ι β) := []
  expired : List (RemoteKeyMeta ι) := []
  readers : ℕ → FaultIn ι β := fun _ => .idle
  client : ClientCall β := .idle
  latest : Option (OverflowEntry β) := none

namespace OverflowKey

variable (s : OverflowKey ι β) (nowMs : ℕ) (shard : ι) (generation reader : ℕ)

/-- `inner.get`, which shows neither protected nor expired values. -/
def innerGet : Option β := s.resident.bind fun entry =>
    if entry.written.governance.isSome || entry.written.isExpired nowMs then none
    else some entry.written.value

def overflowGenerationMatches : Bool := s.resident.any fun entry => entry.generation = generation

/-- What the node answers; it decodes the deadline that was stored with the value. -/
def nodeGet : Option (OverflowValue β) :=
  s.node.bind fun written => if written.isExpired nowMs then none else some written

def gateFree : Bool :=
  match s.client with
  | .setting _ _ => false
  | _ => true

/-- The entry of a set; the deadline saturates. -/
def setEntry (value : β) (governance : Option β) (ttlMs : Option ℕ) : OverflowEntry β :=
  ⟨⟨value, governance, ttlMs.map fun ttl => min (nowMs + ttl) (2 ^ 64 - 1)⟩, generation⟩

/-- `set_with_optional_governance` up to the write into the primary. -/
def setResident (value : β) (governance : Option β) (ttlMs : Option ℕ) : OverflowKey ι β :=
  match s.client with
  | .idle =>
    let entry := setEntry nowMs generation value governance ttlMs
    { s with
      resident := some entry
      client := .setting entry false
      latest := if entry.written.isExpired nowMs then none else some entry }
  | _ => s

def setForget : OverflowKey ι β :=
  match s.client with
  | .setting entry false => { s with remote := none, client := .setting entry true }
  | _ => s

def setEnqueue : OverflowKey ι β :=
  match s.client with
  | .setting entry true =>
    { s with jobs := s.jobs ++ [.put entry.written entry.generation], client := .idle }
  | _ => s

/-- `delete` up to the wait for the worker. -/
def deleteBegin : OverflowKey ι β :=
  match s.client with
  | .idle =>
    let present := (s.innerGet nowMs).isSome || s.remote.isSome || s.pending.any (·.tracksKey)
    { s with
      pending := some ⟨shard, generation, true, present, .delete false⟩
      jobs := s.jobs ++ [.delete generation true]
      client := .deleting generation present none }
  | _ => s

def applyPutCompletion (retryValue retryGovernance : Option β) (isProtected : Bool)
    (expireAtMs : Option ℕ) (generation : ℕ) (succeeded : Bool) : OverflowKey ι β :=
  if !s.overflowGenerationMatches generation then s
  else if succeeded then
    { s with pending := none, remote := some ⟨shard, expireAtMs, generation, true, isProtected⟩ }
  else
    match retryValue with
    | some value =>
      { s with
        pending := some
          ⟨shard, generation, false, true, .put (some value) retryGovernance expireAtMs⟩ }
    | none => s

variable (succeeded : Bool)

def applyDeleteCompletion : OverflowKey ι β :=
  match s.pending with
  | none => s
  | some pending =>
    if pending.generation ≠ generation then s
    else if succeeded then { s with pending := none, remote := none, resident := none }
    else
      match pending.mutation with
      | .delete true => { s with pending := some { pending with queued := false } }
      | _ => { s with pending := none }

/-- The rest of `delete` once the worker has answered. -/
def deleteEnd : OverflowKey ι β :=
  match s.client with
  | .deleting generation _ (some succeeded) =>
    { s.applyDeleteCompletion generation succeeded with client := .idle }
  | _ => s

/-- One completion of the queue; several threads drain it, so that any may be next. -/
def complete (index : ℕ) : OverflowKey ι β :=
  if !s.gateFree then s
  else
    let rest := { s with completions := s.completions.eraseIdx index }
    match s.completions[index]? with
    | some (.put retryValue retryGovernance isProtected expireAtMs generation succeeded) =>
      rest.applyPutCompletion shard retryValue retryGovernance isProtected expireAtMs generation
        succeeded
    | some (.delete generation succeeded) => rest.applyDeleteCompletion generation succeeded
    | none => s

/-- The first job of the queue, with the answer of the node call. -/
def execute : OverflowKey ι β :=
  match s.jobs with
  | [] => s
  | .put written generation :: jobs =>
    { s with
      jobs := jobs
      node := if succeeded then some written else s.node
      completions := s.completions ++ [.put (if succeeded then none else some written.value)
          (if succeeded then none else written.governance) written.governance.isSome
          written.expireAtMs generation succeeded] }
  | .delete generation true :: jobs =>
    { s with
      jobs := jobs
      node := if succeeded then none else s.node
      latest := if succeeded then none else s.latest
      client := match s.client with
        | .deleting own present none =>
          .deleting own present (if own = generation then some succeeded else none)
        | client => client }
  | .delete generation false :: jobs =>
    { s with
      jobs := jobs
      node := if succeeded then none else s.node
      completions := s.completions ++ [.delete generation succeeded] }

def noteRetry : OverflowKey ι β :=
  match s.pending with
  | some pending => if pending.queued then s else { s with retries := s.retries ++ [pending] }
  | none => s

def enqueuePendingRetry (candidate : PendingKeyMeta ι β) : OverflowKey ι β :=
  match s.pending with
  | none => s
  | some pending =>
    if pending.generation = candidate.generation && !pending.queued then
      match candidate.mutation with
      | .put (some value) governance expireAtMs =>
        { s with
          pending := some { pending with queued := true }
          jobs := s.jobs ++ [.put ⟨value, governance, expireAtMs⟩ candidate.generation] }
      -- without a payload the mark is taken back and the retry is an error
      | .put none _ _ => s
      | .delete _ =>
        { s with
          pending := some { pending with queued := true }
          jobs := s.jobs ++ [.delete candidate.generation false] }
    else s

def retry (index : ℕ) : OverflowKey ι β :=
  if !s.gateFree then s
  else
    match s.retries[index]? with
    | some candidate => s.enqueuePendingRetry candidate
    | none => s

def noteExpired : OverflowKey ι β :=
  match s.remote with
  | some remote =>
    if isExpiredAt remote.expireAtMs nowMs then { s with expired := s.expired ++ [remote] } else s
  | none => s

/-- The clean-up of one key that a scan found expired, with the next unused generation. -/
def cleanupExpired (next : ℕ) (expected : RemoteKeyMeta ι) : ℕ × OverflowKey ι β :=
  if s.remote ≠ some expected then (next, s)
  else
    match s.pending with
    | some pending =>
      if !pending.queued && pending.mutation = .delete true then
        (next, { s with
            pending := some { pending with queued := true }
            jobs := s.jobs ++ [.delete pending.generation false] })
      else (next, s)
    | none =>
      (next + 1, { s with
          pending := some ⟨shard, next, true, true, .delete true⟩
          jobs := s.jobs ++ [.delete next false] })

def cleanup (next index : ℕ) : ℕ × OverflowKey ι β :=
  if !s.gateFree then (next, s)
  else
    match s.expired[index]? with
    | some expected => s.cleanupExpired shard next expected
    | none => (next, s)

/-- What `enforce_memory_target` asks of a victim. -/
def evictable : Bool :=
  s.remote.any fun remote => remote.primaryShard = shard && !isExpiredAt remote.expireAtMs nowMs

def evict : OverflowKey ι β :=
  if s.evictable nowMs shard then { s with resident := none } else s

/-- The primary drops an expired entry when it comes across it. -/
def purge : OverflowKey ι β :=
  if s.resident.any fun entry => entry.written.isExpired nowMs then { s with resident := none }
  else s

def setReader (phase : FaultIn ι β) : OverflowKey ι β :=
  { s with readers := Function.update s.readers reader phase }

/-- `get` up to its first look at the primary. -/
def readBegin (fetchOnMiss : Bool) (reader : ℕ) : OverflowKey ι β :=
  match s.innerGet nowMs with
  | some value => s.setReader reader (.finished s.latest s.latest (some value))
  | none =>
    if fetchOnMiss then s.setReader reader (.missed s.latest)
    else s.setReader reader (.finished s.latest s.latest none)

def readExpect : OverflowKey ι β :=
  match s.readers reader with
  | .missed began =>
    match s.remote with
    | none => s.setReader reader (.finished began s.latest none)
    | some expected =>
      if expected.isProtected then s.setReader reader (.finished began s.latest none)
      else s.setReader reader (.expecting began expected)
  | _ => s

/-- `fault_in_once` up to its call of the node. -/
def readCheck : OverflowKey ι β :=
  match s.readers reader with
  | .expecting began expected =>
    match s.innerGet nowMs with
    | some value => s.setReader reader (.finished began s.latest (some value))
    | none =>
      if s.remote = some expected then s.setReader reader (.fetching began expected)
      else s.setReader reader (.missed began)
  | _ => s

/-- The call of the node; a failed call ends the `get` with an error. -/
def readFetch : OverflowKey ι β :=
  match s.readers reader with
  | .fetching began expected =>
    if succeeded then s.setReader reader (.fetched began expected (s.nodeGet nowMs))
    else s.setReader reader .idle
  | _ => s

/-- The rest of `fault_in_once`, under the key gate. `admitted` is the answer of the hard limit. -/
def readEnd (forgetRemoteMisses : Bool) (reader : ℕ) (admitted : Bool) : OverflowKey ι β :=
  if !s.gateFree then s
  else
    match s.readers reader with
    | .fetched began expected remote =>
      match s.innerGet nowMs with
      | some value => s.setReader reader (.finished began s.latest (some value))
      | none =>
        if s.remote ≠ some expected then s.setReader reader (.missed began)
        else
          match remote with
          | none =>
            let s :=
              if forgetRemoteMisses || isExpiredAt expected.expireAtMs nowMs then
                { s with remote := none }
              else s
            s.setReader reader (.finished began s.latest none)
          | some remote =>
            if remote.governance.isSome then
              let s := { s with remote := some { expected with isProtected := true } }
              s.setReader reader (.finished began s.latest none)
            else
              let s :=
                if admitted then
                  { s with
                    resident := some ⟨⟨remote.value, remote.governance, expected.expireAtMs⟩,
                        expected.generation⟩ }
                else s
              s.setReader reader (.finished began s.latest (some remote.value))
    | _ => s

section ReaderMoves

variable (fetchOnMiss : Bool)

omit [DecidableEq β]

section

omit [DecidableEq ι]

/-- What a step of a `get` before its last can make of its reader, and what it has seen by then. -/
inductive ReaderMove : FaultIn ι β → Prop
  | stay : ReaderMove (s.readers reader)
  | found (began : Option (OverflowEntry β)) {value : β} (hget : s.innerGet nowMs = some value) :
    ReaderMove (.finished began s.latest (some value))
  | unfetched (hfetch : fetchOnMiss = false) : ReaderMove (.finished s.latest s.latest none)
  | missed (hget : s.innerGet nowMs = none) : ReaderMove (.missed s.latest)
  | hidden {began : Option (OverflowEntry β)} (hphase : s.readers reader = .missed began)
      (hremote : ∀ expected, s.remote = some expected → expected.isProtected = true) :
    ReaderMove (.finished began s.latest none)
  | expecting {began : Option (OverflowEntry β)} {expected : RemoteKeyMeta ι}
      (hphase : s.readers reader = .missed began) (hremote : s.remote = some expected) :
    ReaderMove (.expecting began expected)
  | fetching {began : Option (OverflowEntry β)} {expected : RemoteKeyMeta ι}
      (hphase : s.readers reader = .expecting began expected)
      (hremote : s.remote = some expected) : ReaderMove (.fetching began expected)
  | again {began : Option (OverflowEntry β)} {expected : RemoteKeyMeta ι}
      (hphase : s.readers reader = .expecting began expected) : ReaderMove (.missed began)
  | fetched {began : Option (OverflowEntry β)} {expected : RemoteKeyMeta ι}
      (hphase : s.readers reader = .fetching began expected) :
    ReaderMove (.fetched began expected (s.nodeGet nowMs))
  | failed : ReaderMove .idle

/-- The step moves one reader and nothing else. -/
def ReaderStep (s' : OverflowKey ι β) : Prop :=
  ∃ phase, ReaderMove s nowMs reader fetchOnMiss phase ∧ s' = s.setReader reader phase

theorem readerStep_self : s.ReaderStep nowMs reader fetchOnMiss s :=
  ⟨_, .stay, by rw [setReader, Function.update_eq_self]⟩

theorem readBegin_step :
    s.ReaderStep nowMs reader fetchOnMiss (s.readBegin nowMs fetchOnMiss reader) := by
  unfold readBegin
  split
  next hget => exact ⟨_, .found _ hget, rfl⟩
  next hget =>
    split_ifs with hfetch
    · exact ⟨_, .missed hget, rfl⟩
    · exact ⟨_, .unfetched (by simpa using hfetch), rfl⟩

theorem readExpect_step : s.ReaderStep nowMs reader fetchOnMiss (s.readExpect reader) := by
  unfold readExpect
  split
  next began hphase =>
    split
    next hnone => exact ⟨_, .hidden hphase (by simp [hnone]), rfl⟩
    next expected hremote =>
      split_ifs with hprotected
      · exact ⟨_, .hidden hphase (by simpa [hremote] using hprotected), rfl⟩
      · exact ⟨_, .expecting hphase hremote, rfl⟩
  · exact readerStep_self ..

theorem readFetch_step (succeeded : Bool) :
    s.ReaderStep nowMs reader fetchOnMiss (s.readFetch nowMs reader succeeded) := by
  unfold readFetch
  split
  next began expected hphase =>
    split_ifs
    · exact ⟨_, .fetched hphase, rfl⟩
    · exact ⟨_, .failed, rfl⟩
  · exact readerStep_self ..

end

theorem readCheck_step : s.ReaderStep nowMs reader fetchOnMiss (s.readCheck nowMs reader) := by
  unfold readCheck
  split
  next began expected hphase =>
    split
    next hget => exact ⟨_, .found _ hget, rfl⟩
    · split_ifs with hcurrent
      · exact ⟨_, .fetching hphase hcurrent, rfl⟩
      · exact ⟨_, .again hphase, rfl⟩
  · exact readerStep_self ..

end ReaderMoves
end OverflowKey
end ShardKv
