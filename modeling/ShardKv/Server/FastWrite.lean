import ShardKv.Foundations.Bytes
import ShardKv.Foundations.Sink

/-!
# The zero-copy reply queue of a connection

Small replies are copied into the output buffer. A large value is queued as a
header and a shared payload, after the bytes already in the buffer have been
moved to the queue. Before a mutating command the queue is copied back into the
output buffer, and at the end of a request batch queue and buffer are flushed to
the socket by one of three paths. All of it follows the server code, partial
vectored writes included.
-/
namespace ShardKv

def respCrlf : Bytes := [13, 10]

def scnpZeroCopyValueThreshold : ℕ := 1024
def respZeroCopyValueThreshold : ℕ := 2048
def respHeaderMaxLen : ℕ := 32
def maxWritevIovecs : ℕ := 1024

/-- Magic, version, value status and a reserved byte, then the length as a `u32`. -/
def fastValueHeader (payloadLen : ℕ) : Bytes := [0xFB, 2, 4, 0] ++ leBytes 4 payloadLen

variable (out payload : Bytes)

def writeFastValue : Bytes := out ++ fastValueHeader payload.length ++ payload

def writeFastValue64 : Bytes :=
  if payload.length ≠ 64 then writeFastValue out payload
  else out ++ fastValueHeader 64 ++ payload

/-- A header array and the number of its bytes in use. -/
structure RespHeader where
  bytes : Bytes
  len : ℕ
  len_le : len ≤ bytes.length

/-- The zero-padded array; its length in use is a `u8`. -/
def respBlobHeader (payloadLen : ℕ) : RespHeader where
  bytes :=
    let text := 36 :: decimalBytes payloadLen ++ respCrlf
    text ++ List.replicate (respHeaderMaxLen - text.length) 0
  len := (1 + (decimalBytes payloadLen).length + 2) % 256
  len_le := by
    refine (Nat.mod_le _ _).trans ?_
    simp [respCrlf]
    omega

def writeRespBlobString : Bytes :=
  if payload.length < 10 then
    out ++ [36, (48 + payload.length).toUInt8, 13, 10] ++ payload ++ respCrlf
  else out ++ [36] ++ decimalBytes payload.length ++ respCrlf ++ payload ++ respCrlf

inductive FastWriteItem
  | bytes (data : Bytes)
  | fastValue (header payload : Bytes)
  | respValue (header : RespHeader) (payload : Bytes)

structure FastWriteQueue where
  items : List FastWriteItem := []

/-- The two places where the replies of a connection wait. -/
structure ReplyBuffers where
  out : Bytes := []
  queue : FastWriteQueue := {}

namespace FastWriteQueue

variable (queue : FastWriteQueue) (out : Bytes)

def isEmpty : Bool := queue.items.isEmpty

def flushBytes : ReplyBuffers :=
  if !out.isEmpty then { out := [], queue := ⟨queue.items ++ [.bytes out]⟩ } else { out, queue }

def pushFastValue (payload : SharedBytes) : ReplyBuffers :=
  let len := payload.data.length
  if len = 64 then { out := writeFastValue64 out payload.data, queue }
  else if scnpZeroCopyValueThreshold ≤ len then
    let flushed := queue.flushBytes out
    { flushed with
      queue := ⟨flushed.queue.items ++ [.fastValue (fastValueHeader len) payload.data]⟩ }
  else { out := writeFastValue out payload.data, queue }

def pushRespValue (payload : SharedBytes) : ReplyBuffers :=
  if payload.data.length < respZeroCopyValueThreshold then
    { out := writeRespBlobString out payload.data, queue }
  else
    let flushed := queue.flushBytes out
    let header := respBlobHeader payload.data.length
    { flushed with queue := ⟨flushed.queue.items ++ [.respValue header payload.data]⟩ }

/-- The loop over the drained items, each appended to the buffer. -/
def materializeItems : List FastWriteItem → Bytes → Bytes
  | [], out => out
  | .bytes data :: items, out => materializeItems items (out ++ data)
  | .fastValue header payload :: items, out => materializeItems items (out ++ header ++ payload)
  | .respValue header payload :: items, out =>
    materializeItems items (out ++ header.bytes.take header.len ++ payload ++ respCrlf)

def materializeInto : ReplyBuffers := { out := materializeItems queue.items out, queue := {} }

/-- The buffers of a connection that may run without a queue. -/
def materializeOptional (queue : Option FastWriteQueue) (out : Bytes) :
    Bytes × Option FastWriteQueue :=
  match queue with
  | some queue =>
    if !queue.isEmpty then
      let buffers := queue.materializeInto out
      (buffers.out, some buffers.queue)
    else (out, some queue)
  | none => (out, none)

end FastWriteQueue

/-- The barrier in front of a command; both protocols use the same one. -/
def materializeOnMutation (queue : Option FastWriteQueue) (out : Bytes) (mutatesValue : Bool) :
    Bytes × Option FastWriteQueue :=
  if mutatesValue then FastWriteQueue.materializeOptional queue out else (out, queue)

inductive WriteError
  | writeZero
  | reportedMoreThanOwned
  deriving DecidableEq

namespace FastWriteItem

def iovecCount : FastWriteItem → ℕ
  | .bytes _ => 1
  | .fastValue _ _ => 2
  | .respValue _ _ => 3

def byteLen : FastWriteItem → ℕ
  | .bytes data => data.length
  | .fastValue header payload => header.length + payload.length
  | .respValue header payload => header.len + payload.length + respCrlf.length

end FastWriteItem

def pushSliceWithOffset (slice : Bytes) (offset : ℕ) : List Bytes :=
  if offset < slice.length then [slice.drop offset] else []

def pushTwoWithOffset (first second : Bytes) (offset : ℕ) : List Bytes :=
  if offset < first.length then [first.drop offset, second]
  else pushSliceWithOffset second (offset - first.length)

def pushThreeWithOffset (first second third : Bytes) (offset : ℕ) : List Bytes :=
  if offset < first.length then [first.drop offset, second, third]
  else
    let offset := offset - first.length
    if offset < second.length then [second.drop offset, third]
    else pushSliceWithOffset third (offset - second.length)

def FastWriteItem.pushTokioIovecs (item : FastWriteItem) (offset : ℕ) : List Bytes :=
  match item with
  | .bytes data => pushSliceWithOffset data offset
  | .fastValue header payload => pushTwoWithOffset header payload offset
  | .respValue header payload =>
    pushThreeWithOffset (header.bytes.take header.len) payload respCrlf offset

/-- The items from the current index on, and the offset into the first of them. -/
structure FastWriteTokioBatch where
  items : List FastWriteItem
  itemOffset : ℕ
  remainingLen : ℕ

namespace FastWriteTokioBatch

def new (items : List FastWriteItem) : FastWriteTokioBatch :=
  { items, itemOffset := 0, remainingLen := (items.map FastWriteItem.byteLen).sum }

def fillFrom (maxIovecs : ℕ) : List FastWriteItem → ℕ → List Bytes → List Bytes
  | [], _, out => out
  | item :: items, offset, out =>
    let out := out ++ item.pushTokioIovecs offset
    if maxIovecs ≤ out.length then out.take maxIovecs else fillFrom maxIovecs items 0 out

variable (batch : FastWriteTokioBatch)

def fillIovecs (maxIovecs : ℕ) : List Bytes :=
  fillFrom maxIovecs batch.items batch.itemOffset []

/-- The items and offset after `amt` bytes, or `none` when the items run out first. -/
def skipBytes : List FastWriteItem → ℕ → ℕ → Option (List FastWriteItem × ℕ)
  | items, offset, 0 => some (items, offset)
  | [], _, _ + 1 => none
  | item :: items, offset, amt + 1 =>
    let itemRemaining := item.byteLen - offset
    if amt + 1 < itemRemaining then some (item :: items, offset + (amt + 1))
    else if itemRemaining = amt + 1 then some (items, 0)
    else skipBytes items 0 (amt + 1 - itemRemaining)

def consume (amt : ℕ) : FastWriteTokioBatch :=
  match skipBytes batch.items batch.itemOffset amt with
  | none => { items := [], itemOffset := 0, remainingLen := 0 }
  | some (items, itemOffset) =>
    { items, itemOffset, remainingLen := batch.remainingLen - amt }

def ops : DrainOps UInt8 FastWriteTokioBatch WriteError where
  remaining := remainingLen
  offer batch := (batch.fillIovecs maxWritevIovecs).flatten
  reject _ written := if written = 0 then some .writeZero else none
  advance := consume

def writeAll (sink : Sink UInt8) (items : List FastWriteItem) (sent : Bytes) :
    Option (Except WriteError Bytes) :=
  sink.drain ops (new items).remainingLen (new items) sent

end FastWriteTokioBatch

/-- The slices still to be written; the first may be cut already. -/
structure FastWriteBatchIoVec where
  iovecs : List Bytes
  remainingLen : ℕ

namespace FastWriteBatchIoVec

def itemIovecs : FastWriteItem → List Bytes
  | .bytes data => [data]
  | .fastValue header payload => [header, payload]
  | .respValue header payload => [header.bytes.take header.len, payload, respCrlf]

def new (items : List FastWriteItem) : FastWriteBatchIoVec :=
  { iovecs := items.flatMap itemIovecs, remainingLen := (items.map FastWriteItem.byteLen).sum }

def skipBytes : List Bytes → ℕ → Option (List Bytes)
  | iovecs, 0 => some iovecs
  | [], _ + 1 => none
  | iovec :: iovecs, amt + 1 =>
    if iovec.length < amt + 1 then skipBytes iovecs (amt + 1 - iovec.length)
    else if iovec.length = amt + 1 then some iovecs
    else some (iovec.drop (amt + 1) :: iovecs)

def consume (batch : FastWriteBatchIoVec) (amt : ℕ) : FastWriteBatchIoVec :=
  match skipBytes batch.iovecs amt with
  | none => { iovecs := [], remainingLen := 0 }
  | some iovecs => { iovecs, remainingLen := batch.remainingLen - amt }

def ops : DrainOps UInt8 FastWriteBatchIoVec WriteError where
  remaining := remainingLen
  offer batch := batch.iovecs.flatten
  reject batch written :=
    if written = 0 then some .writeZero
    else if batch.remainingLen < written then some .reportedMoreThanOwned
    else none
  advance := consume

def writeAll (sink : Sink UInt8) (items : List FastWriteItem) (sent : Bytes) :
    Option (Except WriteError Bytes) :=
  sink.drain ops (new items).remainingLen (new items) sent

end FastWriteBatchIoVec

namespace FastWriteQueue

/-- How many items the next batch takes: at least one, and no more slices than allowed. -/
def batchSize (maxIovecs : ℕ) : List FastWriteItem → ℕ → ℕ → ℕ
  | [], take, _ => take
  | item :: items, take, iovecs =>
    if 0 < take ∧ maxIovecs < iovecs + item.iovecCount then take
    else if maxIovecs ≤ iovecs + item.iovecCount then take + 1
    else batchSize maxIovecs items (take + 1) (iovecs + item.iovecCount)

def drainIovecBatch (queue : FastWriteQueue) (maxIovecs : ℕ) :
    List FastWriteItem × FastWriteQueue :=
  let take := batchSize maxIovecs queue.items 0 0
  (queue.items.take take, ⟨queue.items.drop take⟩)

/-- A batch of one plain buffer is written without slices. -/
def writeBatch (writeAll : List FastWriteItem → Bytes → Option (Except WriteError Bytes)) :
    List FastWriteItem → Bytes → Option (Except WriteError Bytes)
  | [.bytes data], sent => some (.ok (sent ++ data))
  | batch, sent => writeAll batch sent

/-- The batch loop shared by both runtimes, with what it leaves of the queue. -/
def writePending (writeAll : List FastWriteItem → Bytes → Option (Except WriteError Bytes)) :
    ℕ → FastWriteQueue → Bytes → Option (Except WriteError Bytes × FastWriteQueue)
  | rounds, queue, sent =>
    if queue.isEmpty then some (.ok sent, queue)
    else
      match rounds with
      | 0 => none
      | rounds + 1 =>
        let (batch, queue) := queue.drainIovecBatch maxWritevIovecs
        match writeBatch writeAll batch sent with
        | some (.ok sent) => writePending writeAll rounds queue sent
        | failed => failed.map fun result => (result, queue)

def writePendingTokio (sink : Sink UInt8) (queue : FastWriteQueue) (sent : Bytes) :
    Option (Except WriteError Bytes × FastWriteQueue) :=
  writePending (FastWriteTokioBatch.writeAll sink) queue.items.length queue sent

def writePendingMonoio (sink : Sink UInt8) (queue : FastWriteQueue) (sent : Bytes) :
    Option (Except WriteError Bytes × FastWriteQueue) :=
  writePending (FastWriteBatchIoVec.writeAll sink) queue.items.length queue sent

end FastWriteQueue

/-- Who flushes the buffers: the two socket loops, or a worker that hands its
reply back to the connection as one buffer. -/
inductive FlushPath
  | tokio
  | monoio
  | routedWorker
  deriving DecidableEq

/-- Everything the socket has received once a batch of requests is flushed. -/
def ReplyBuffers.flush (buffers : ReplyBuffers) (sink : Sink UInt8) (sent : Bytes) :
    FlushPath → Option (Except WriteError Bytes)
  | .tokio =>
    if !buffers.queue.isEmpty then
      let flushed := buffers.queue.flushBytes buffers.out
      (flushed.queue.writePendingTokio sink sent).map Prod.fst
    else if !buffers.out.isEmpty then some (.ok (sent ++ buffers.out))
    else some (.ok sent)
  | .monoio =>
    let flushed := buffers.queue.flushBytes buffers.out
    (flushed.queue.writePendingMonoio sink sent).map Prod.fst
  | .routedWorker =>
    if !buffers.queue.isEmpty then
      let flushed := buffers.queue.flushBytes buffers.out
      let payload := FastWriteQueue.materializeOptional (some flushed.queue) flushed.out
      some (.ok (sent ++ payload.1))
    else some (.ok (sent ++ buffers.out))

end ShardKv
