import ShardKv.Persistence.WalCodec

/-!
# From the shards to the log segments

Every shard has an appender that collects records into blocks and sends the
blocks through a bounded channel. One thread takes blocks from the channels in
turn and appends their records to the current segment, which it replaces when it
has grown large enough. When it is told to stop it takes what is still in the
channels and ends; so it does when a file operation fails.

The shards, the merging thread and whoever stops it run concurrently. A state
has the stages a record passes, and one event is one step of one of them. A
shard whose send waits for room in the channel does nothing else meanwhile. A
step that is not possible in a state leaves it as it is. The export of frames
over the network and the flushing of files to disk are left out.
-/
namespace ShardKv

structure WalConfig where
  shardCount : ℕ
  walChannelCapacity : ℕ
  walBlockMaxRecords : ℕ
  walBlockMaxBytes : ℕ
  segmentSizeBytes : ℕ
  compressWal : Bool
  shardCount_pos : 0 < shardCount
  walChannelCapacity_pos : 0 < walChannelCapacity
  walBlockMaxRecords_pos : 0 < walBlockMaxRecords
  walBlockMaxBytes_pos : 0 < walBlockMaxBytes

namespace WalConfig

/-- The number of blocks a channel holds. -/
def blockCapacity (config : WalConfig) : ℕ :=
  max ((config.walChannelCapacity + config.walBlockMaxRecords - 1) / config.walBlockMaxRecords) 1

abbrev Shard (config : WalConfig) := Fin config.shardCount

end WalConfig

def estimatedRecordBytes (record : MutationRecord) : ℕ :=
  64 + record.key.length + record.value.length + (record.governance.map List.length).getD 0

structure WalAppender where
  pending : List MutationRecord := []
  pendingBytes : ℕ := 0
  /-- The block that is being sent. -/
  sending : Option (List MutationRecord) := none

namespace WalAppender

variable (appender : WalAppender)

/-- Takes the pending records out and starts to send them. -/
def flush : WalAppender :=
  if appender.pending = [] then appender
  else { appender with pending := [], sending := some appender.pending }

def append (config : WalConfig) (appender : WalAppender) (record : MutationRecord) : WalAppender :=
  let appender := { appender with
    pendingBytes := appender.pendingBytes + estimatedRecordBytes record
    pending := appender.pending ++ [record] }
  if config.walBlockMaxRecords ≤ appender.pending.length ∨
      config.walBlockMaxBytes ≤ appender.pendingBytes then appender.flush
  else appender

/-- The channel has taken the block. -/
def sent : WalAppender :=
  { appender with sending := none, pendingBytes := 0 }

/-- There is no receiver any more; the records stay pending. -/
def sendFailed (block : List MutationRecord) : WalAppender :=
  { appender with sending := none, pending := block }

end WalAppender

/-- A record and the shard whose appender it came from. -/
structure MergedRecord (config : WalConfig) where
  shard : config.Shard
  record : MutationRecord

structure SegmentWriter (config : WalConfig) where
  closed : List (List (MergedRecord config)) := []
  current : List (MergedRecord config) := []
  bytesWritten : ℕ := 0

namespace SegmentWriter

variable {config : WalConfig} (writer : SegmentWriter config)

def rotate : SegmentWriter config where
  closed := writer.closed ++ [writer.current]
  current := []
  bytesWritten := 0

def appendEncoded (env : WalPrimitives) (writer : SegmentWriter config)
    (merged : MergedRecord config) : SegmentWriter config :=
  let encoded := WalRecordCodec.encodeFrame env merged.record config.compressWal
  let writer := { writer with
    current := writer.current ++ [merged]
    bytesWritten := writer.bytesWritten + encoded.length }
  if config.segmentSizeBytes ≤ writer.bytesWritten then writer.rotate else writer

def segments : List (List (MergedRecord config)) :=
  writer.closed ++ [writer.current]

/-- All records in the order they were written. -/
def written : List (MergedRecord config) := writer.segments.flatten

end SegmentWriter

/-- Where the merging thread is. -/
inductive WriterPhase
  /-- at the head of the loop -/
  | checking
  /-- in a round over the receivers, with so many polls left -/
  | polling (left : ℕ)
  /-- past the loop; the receivers before this one have been drained -/
  | draining (next : ℕ)
  | finished
  | failed
  deriving DecidableEq

structure WalState (config : WalConfig) where
  appenders : config.Shard → WalAppender
  channels : config.Shard → List (List MutationRecord)
  phase : WriterPhase
  receiverIndex : ℕ
  stopRequested : Bool
  /-- The block whose records are being appended, and the shard it came from. -/
  merging : Option (config.Shard × List MutationRecord)
  writer : SegmentWriter config
  /-- Everything the shards have appended so far. -/
  appended : config.Shard → List MutationRecord

namespace WalState

variable {config : WalConfig} (state : WalState config) (shard : config.Shard) (env : WalPrimitives)

def start : WalState config where
  appenders _ := {}
  channels _ := []
  phase := .checking
  receiverIndex := 0
  stopRequested := false
  merging := none
  writer := {}
  appended _ := []

/-- The receivers are gone when the thread has ended. -/
def connected : Bool := state.phase ≠ .finished ∧ state.phase ≠ .failed

def nextReceiver : config.Shard :=
  ⟨state.receiverIndex % config.shardCount, Nat.mod_lt _ config.shardCount_pos⟩

/-- Takes the next block from a channel, if there is one. -/
def tryRecv : WalState config :=
  match state.channels shard with
  | [] => state
  | block :: blocks =>
    { state with
      channels := Function.update state.channels shard blocks
      merging := some (shard, block) }

def pollNextReceiver (left : ℕ) : WalState config := { state.tryRecv state.nextReceiver with
    phase := .polling left
    receiverIndex := (state.receiverIndex + 1) % 2 ^ 64 }

def drainReceiver : WalState config :=
  match state.channels shard with
  | [] => { state with phase := .draining (shard + 1) }
  | _ :: _ => state.tryRecv shard

def appendRecord (state : WalState config) (shard : config.Shard) (record : MutationRecord)
    (rest : List MutationRecord) : WalState config :=
  { state with
    merging := some (shard, rest)
    writer := state.writer.appendEncoded env { shard, record } }

/-- One step of the merging thread. -/
def mergerStep (state : WalState config) : WalState config :=
  match state.phase with
  | .finished => state
  | .failed => state
  | phase =>
    match state.merging with
    | some (shard, record :: rest) => state.appendRecord env shard record rest
    | some (_, []) => { state with merging := none }
    | none =>
      match phase with
      | .checking =>
        if state.stopRequested then { state with phase := .draining 0 }
        else { state with phase := .polling config.shardCount }
      | .polling 0 => { state with phase := .checking }
      | .polling (left + 1) => state.pollNextReceiver left
      | .draining next =>
        if h : next < config.shardCount then state.drainReceiver ⟨next, h⟩
        else { state with phase := .finished }
      | _ => state

inductive WalEvent (config : WalConfig)
  | append (shard : config.Shard) (record : MutationRecord)
  /-- an explicit flush, one that is due, or the one when the appender is dropped -/
  | flush (shard : config.Shard)
  /-- the waiting send of a block -/
  | send (shard : config.Shard)
  | requestStop
  | merge
  /-- a file operation of the merging thread fails -/
  | ioError

def setAppender (appender : WalAppender) : WalState config :=
  { state with appenders := Function.update state.appenders shard appender }

def append (record : MutationRecord) : WalState config :=
  match (state.appenders shard).sending with
  | some _ => state
  | none =>
    { state.setAppender shard ((state.appenders shard).append config record) with
      appended := Function.update state.appended shard (state.appended shard ++ [record]) }

def flush : WalState config :=
  match (state.appenders shard).sending with
  | some _ => state
  | none => state.setAppender shard (state.appenders shard).flush

def send : WalState config :=
  match (state.appenders shard).sending with
  | none => state
  | some block =>
    if state.connected then
      if (state.channels shard).length < config.blockCapacity then
        { state.setAppender shard (state.appenders shard).sent with
          channels := Function.update state.channels shard (state.channels shard ++ [block]) }
      else state
    else state.setAppender shard ((state.appenders shard).sendFailed block)

def ioError : WalState config :=
  match state.phase with
  | .finished => state
  | _ => { state with phase := .failed }

def step (state : WalState config) : WalEvent config → WalState config
  | .append shard record => state.append shard record
  | .flush shard => state.flush shard
  | .send shard => state.send shard
  | .requestStop => { state with stopRequested := true }
  | .merge => state.mergerStep env
  | .ioError => state.ioError

def run (events : List (WalEvent config)) : WalState config := events.foldl (step env) start

/-- The records of one shard that are in the segments, in their order there. -/
def writtenOf : List MutationRecord :=
  (state.writer.written.filter fun merged => merged.shard = shard).map (·.record)

end WalState
end ShardKv
