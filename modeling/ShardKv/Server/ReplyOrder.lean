import ShardKv.Server.FastWrite

/-!
# The order in which replies reach the socket

Every flush path delivers the queued bytes followed by the buffered ones. So the
replies of a batch arrive in request order exactly as long as queue-then-buffer
is the request order, and the steps keep that, with one exception: the barrier
appends the queue behind bytes that were buffered after it.
-/
namespace ShardKv

open FastWriteQueue List FastWriteTokioBatch
variable {iovecs : List Bytes}

/-- The bytes an item stands for. -/
def FastWriteItem.wire : FastWriteItem → Bytes
  | .bytes data => data
  | .fastValue header payload => header ++ payload
  | .respValue header payload => header.bytes.take header.len ++ payload ++ respCrlf

def FastWriteQueue.wire (queue : FastWriteQueue) : Bytes := queue.items.flatMap FastWriteItem.wire

/-- What is still to be sent, in the order of a flush. -/
def ReplyBuffers.pending (buffers : ReplyBuffers) : Bytes := buffers.queue.wire ++ buffers.out

theorem FastWriteItem.byteLen_eq (item : FastWriteItem) : item.byteLen = item.wire.length := by
  cases item with
  | bytes => rfl
  | fastValue => simp [byteLen, wire]
  | respValue header => simp [byteLen, wire, header.len_le, Nat.add_assoc]

theorem sum_byteLen (items : List FastWriteItem) :
    (items.map FastWriteItem.byteLen).sum = (items.flatMap FastWriteItem.wire).length := by
  induction items with
  | nil => rfl
  | cons item items ih =>
    rw [map_cons, sum_cons, flatMap_cons, length_append, ih, item.byteLen_eq]

/-- A slice list that does not start with an empty slice. -/
def Leading (iovecs : List Bytes) : Prop := ∀ iovec ∈ iovecs.head?, iovec ≠ []

theorem Leading.flatten_ne_nil (h : Leading iovecs) (hne : iovecs ≠ []) : iovecs.flatten ≠ [] := by
  cases iovecs with
  | nil => exact absurd rfl hne
  | cons iovec =>
    rw [flatten_cons]
    exact append_ne_nil_of_left_ne_nil (h iovec rfl) _

theorem Leading.append {more : List Bytes} (h : Leading iovecs) (hmore : Leading more) :
    Leading (iovecs ++ more) := by
  cases iovecs with
  | nil => exact hmore
  | cons => exact h

theorem Leading.take (h : Leading iovecs) (n : ℕ) : Leading (iovecs.take n) := by
  cases n with
  | zero => simp [Leading]
  | succ =>
    cases iovecs with
    | nil | cons => exact h

theorem pushSliceWithOffset_spec (slice : Bytes) (offset : ℕ) :
    (pushSliceWithOffset slice offset).flatten = slice.drop offset ∧
      Leading (pushSliceWithOffset slice offset) := by
  unfold pushSliceWithOffset
  split_ifs with h
  · simpa [Leading] using h
  · simp [Leading, drop_eq_nil_of_le (Nat.le_of_not_lt h)]

theorem pushTwoWithOffset_spec (first second : Bytes) (offset : ℕ) :
    (pushTwoWithOffset first second offset).flatten = (first ++ second).drop offset ∧
      Leading (pushTwoWithOffset first second offset) := by
  unfold pushTwoWithOffset
  rw [drop_append]
  split_ifs with h
  · simp [Leading, Nat.sub_eq_zero_of_le h.le, h]
  · rw [drop_eq_nil_of_le (Nat.le_of_not_lt h), nil_append]
    exact pushSliceWithOffset_spec second _

theorem pushThreeWithOffset_spec (first second third : Bytes) (offset : ℕ) :
    (pushThreeWithOffset first second third offset).flatten =
        (first ++ second ++ third).drop offset ∧
      Leading (pushThreeWithOffset first second third offset) := by
  unfold pushThreeWithOffset
  rw [append_assoc, drop_append]
  split_ifs with h
  · simp [Leading, Nat.sub_eq_zero_of_le h.le, h]
  · rw [drop_eq_nil_of_le (Nat.le_of_not_lt h), nil_append]
    exact pushTwoWithOffset_spec second third _

theorem FastWriteItem.pushTokioIovecs_spec (item : FastWriteItem) (offset : ℕ) :
    (item.pushTokioIovecs offset).flatten = item.wire.drop offset ∧
      Leading (item.pushTokioIovecs offset) := by
  cases item with
  | bytes => exact pushSliceWithOffset_spec _ offset
  | fastValue => exact pushTwoWithOffset_spec _ _ offset
  | respValue header =>
    exact pushThreeWithOffset_spec (header.bytes.take header.len) _ respCrlf offset

namespace FastWriteTokioBatch

/-- The bytes of a batch that are not written yet. -/
def restOf : List FastWriteItem → ℕ → Bytes
  | [], _ => []
  | item :: items, offset => item.wire.drop offset ++ items.flatMap FastWriteItem.wire

theorem restOf_zero (items : List FastWriteItem) :
    restOf items 0 = items.flatMap FastWriteItem.wire := by
  cases items with
  | nil | cons => rfl

theorem fillFrom_isPrefix (maxIovecs : ℕ) (items : List FastWriteItem) : ∀ offset out,
    (fillFrom maxIovecs items offset out).flatten <+: out.flatten ++ restOf items offset := by
  induction items with
  | nil =>
    intro offset out
    exact prefix_append _ _
  | cons item items ih =>
    intro offset out
    have hpush : (out ++ item.pushTokioIovecs offset).flatten =
        out.flatten ++ item.wire.drop offset := by
      rw [flatten_append, (item.pushTokioIovecs_spec offset).1]
    unfold fillFrom
    dsimp only
    rw [restOf, ← append_assoc, ← hpush]
    split_ifs
    · have htake := ( List.take_prefix maxIovecs (out ++ item.pushTokioIovecs offset)).flatten
      exact htake.trans (prefix_append _ _)
    · rw [← restOf_zero]
      exact ih 0 _

/-- Nothing is offered only if nothing is left, and the first slice offered is not empty. -/
theorem fillFrom_leading {maxIovecs : ℕ} (hmax : 0 < maxIovecs) (items : List FastWriteItem) :
    ∀ offset out, Leading out → Leading (fillFrom maxIovecs items offset out) ∧
        (fillFrom maxIovecs items offset out = [] → out = [] ∧ restOf items offset = []) := by
  induction items with
  | nil => exact fun offset out h => ⟨h, fun hnil => ⟨hnil, rfl⟩⟩
  | cons item items ih =>
    intro offset out h
    obtain ⟨hflat, hlead⟩ := item.pushTokioIovecs_spec offset
    have hpush := h.append hlead
    unfold fillFrom
    dsimp only
    split_ifs with hfull
    · refine ⟨hpush.take maxIovecs, fun hnil => ?_⟩
      have hlen := congrArg List.length hnil
      rw [length_take, length_nil] at hlen
      omega
    · obtain ⟨hrest, hempty⟩ := ih 0 _ hpush
      refine ⟨hrest, fun hnil => ?_⟩
      obtain ⟨hout, hitems⟩ := hempty hnil
      obtain ⟨rfl, hitem⟩ := append_eq_nil_iff.mp hout
      rw [hitem, flatten_nil] at hflat
      rw [restOf, ← hflat, ← restOf_zero, hitems]
      exact ⟨rfl, rfl⟩

theorem skipBytes_spec (items : List FastWriteItem) : ∀ offset amt,
    amt ≤ (restOf items offset).length →
      ∃ items' offset', skipBytes items offset amt = some (items', offset') ∧
        restOf items' offset' = (restOf items offset).drop amt := by
  induction items with
  | nil =>
    intro offset amt hamt
    obtain rfl : amt = 0 := Nat.le_zero.mp hamt
    exact ⟨[], offset, by simp [skipBytes], rfl⟩
  | cons item items ih =>
    intro offset amt hamt
    cases amt with
    | zero => exact ⟨item :: items, offset, by simp [skipBytes], rfl⟩
    | succ amt =>
      have hitem : (item.wire.drop offset).length = item.byteLen - offset := by
        rw [length_drop, item.byteLen_eq]
      rw [restOf, length_append, hitem] at hamt
      unfold skipBytes
      dsimp only
      rw [restOf, drop_append, hitem]
      split_ifs with hgreater hequal
      · refine ⟨_, _, rfl, ?_⟩
        rw [restOf, drop_drop, Nat.sub_eq_zero_of_le hgreater.le, drop_zero]
      · refine ⟨_, _, rfl, ?_⟩
        rw [restOf_zero, drop_eq_nil_of_le (by omega), hequal, Nat.sub_self, drop_zero, nil_append]
      · rw [← restOf_zero] at hamt
        obtain ⟨items', offset', hskip, hrest⟩ :=
          ih 0 (amt + 1 - (item.byteLen - offset)) (by omega)
        have hdone : (item.wire.drop offset).drop (amt + 1) = [] := drop_eq_nil_of_le (by omega)
        refine ⟨items', offset', hskip, ?_⟩
        rw [hrest, restOf_zero, hdone, nil_append]

/-- The cached length is the length of what is left. -/
def Valid (batch : FastWriteTokioBatch) : Prop :=
  batch.remainingLen = (restOf batch.items batch.itemOffset).length

theorem ops_delivers : ops.Delivers Valid fun batch => restOf batch.items batch.itemOffset where
  remaining_eq _ hv := hv
  offer_isPrefix batch _ := fillFrom_isPrefix maxWritevIovecs batch.items batch.itemOffset []
  offer_ne_nil := by
    intro batch _ hrest
    have hmax : 0 < maxWritevIovecs := by decide
    obtain ⟨hlead, hempty⟩ := fillFrom_leading hmax
      batch.items batch.itemOffset [] (by simp [Leading])
    exact hlead.flatten_ne_nil fun hnil => hrest (hempty hnil).2
  reject_eq := by
    intro batch written _ hpos _
    exact if_neg hpos.ne'
  advance_spec := by
    intro batch written hv _ hle
    obtain ⟨items, offset, hskip, hrest⟩ := skipBytes_spec batch.items batch.itemOffset written hle
    have hconsume : ops.advance batch written =
        { items, itemOffset := offset, remainingLen := batch.remainingLen - written } := by
      change batch.consume written = _
      rw [consume, hskip]
    rw [hconsume]
    refine ⟨?_, hrest⟩
    change batch.remainingLen - written = (restOf items offset).length
    rw [hrest, length_drop, hv]

theorem writeAll_eq (sink : Sink UInt8) (items : List FastWriteItem) (sent : Bytes) :
    writeAll sink items sent = some (.ok (sent ++ items.flatMap FastWriteItem.wire)) := by
  have hvalid : Valid (new items) := by
    change (items.map FastWriteItem.byteLen).sum = (restOf items 0).length
    rw [restOf_zero, sum_byteLen]
  rw [← restOf_zero]
  exact ops_delivers.drain_eq sink _ hvalid hvalid.ge

end FastWriteTokioBatch

namespace FastWriteBatchIoVec

theorem skipBytes_spec (iovecs : List Bytes) : ∀ amt, amt ≤ iovecs.flatten.length →
    ∃ iovecs', skipBytes iovecs amt = some iovecs' ∧ iovecs'.flatten = iovecs.flatten.drop amt := by
  induction iovecs with
  | nil =>
    intro amt hamt
    obtain rfl : amt = 0 := Nat.le_zero.mp hamt
    exact ⟨[], by simp [skipBytes], rfl⟩
  | cons iovec iovecs ih =>
    intro amt hamt
    cases amt with
    | zero => exact ⟨iovec :: iovecs, by simp [skipBytes], rfl⟩
    | succ amt =>
      rw [flatten_cons, length_append] at hamt
      unfold skipBytes
      rw [flatten_cons, drop_append]
      split_ifs with hless hequal
      · obtain ⟨iovecs', hskip, hrest⟩ := ih (amt + 1 - iovec.length) (by omega)
        refine ⟨iovecs', hskip, ?_⟩
        rw [hrest, drop_eq_nil_of_le hless.le, nil_append]
      · refine ⟨iovecs, rfl, ?_⟩
        rw [drop_eq_nil_of_le hequal.le, hequal, Nat.sub_self, drop_zero, nil_append]
      · refine ⟨_, rfl, ?_⟩
        rw [flatten_cons, Nat.sub_eq_zero_of_le (by omega), drop_zero]

def Valid (batch : FastWriteBatchIoVec) : Prop := batch.remainingLen = batch.iovecs.flatten.length

theorem ops_delivers : ops.Delivers Valid fun batch => batch.iovecs.flatten where
  remaining_eq _ hv := hv
  offer_isPrefix _ _ := prefix_rfl
  offer_ne_nil _ _ hrest := hrest
  reject_eq := by
    intro batch written hv hpos hle
    have hle' : ¬ batch.remainingLen < written := by
      rw [hv]
      exact Nat.not_lt.mpr hle
    change (if written = 0 then _ else if batch.remainingLen < written then _ else _) = _
    rw [if_neg hpos.ne', if_neg hle']
  advance_spec := by
    intro batch written hv _ hle
    obtain ⟨iovecs, hskip, hrest⟩ := skipBytes_spec batch.iovecs written hle
    have hconsume : ops.advance batch written =
        { iovecs, remainingLen := batch.remainingLen - written } := by
      change batch.consume written = _
      rw [consume, hskip]
    rw [hconsume]
    refine ⟨?_, hrest⟩
    change batch.remainingLen - written = iovecs.flatten.length
    rw [hrest, length_drop, hv]

theorem flatten_itemIovecs (items : List FastWriteItem) :
    (items.flatMap itemIovecs).flatten = items.flatMap FastWriteItem.wire := by
  induction items with
  | nil => rfl
  | cons item items ih =>
    rw [flatMap_cons, flatten_append, ih, flatMap_cons]
    cases item <;> simp [itemIovecs, FastWriteItem.wire]

theorem writeAll_eq (sink : Sink UInt8) (items : List FastWriteItem) (sent : Bytes) :
    writeAll sink items sent = some (.ok (sent ++ items.flatMap FastWriteItem.wire)) := by
  have hvalid : Valid (new items) := by
    change (items.map FastWriteItem.byteLen).sum = (items.flatMap itemIovecs).flatten.length
    rw [flatten_itemIovecs, sum_byteLen]
  rw [← flatten_itemIovecs]
  exact ops_delivers.drain_eq sink _ hvalid hvalid.ge

end FastWriteBatchIoVec

namespace FastWriteQueue

theorem isEmpty_iff {queue : FastWriteQueue} : queue.isEmpty = true ↔ queue.items = [] :=
  List.isEmpty_iff

theorem le_batchSize (maxIovecs : ℕ) (items : List FastWriteItem) : ∀ take iovecs,
    take ≤ batchSize maxIovecs items take iovecs := by
  induction items with
  | nil => exact fun take _ => le_rfl
  | cons item items ih =>
    intro take iovecs
    unfold batchSize
    split_ifs
    · exact le_rfl
    · exact Nat.le_succ take
    · exact (Nat.le_succ take).trans (ih _ _)

theorem batchSize_pos (maxIovecs : ℕ) {items : List FastWriteItem} (h : items ≠ []) :
    0 < batchSize maxIovecs items 0 0 := by
  cases items with
  | nil => exact absurd rfl h
  | cons item items =>
    unfold batchSize
    rw [if_neg (fun hand => absurd hand.1 (lt_irrefl 0))]
    split_ifs
    · exact Nat.one_pos
    · exact le_batchSize maxIovecs items 1 _

theorem writePending_of_nil
    (writeAll : List FastWriteItem → Bytes → Option (Except WriteError Bytes)) (rounds : ℕ)
    {queue : FastWriteQueue} (h : queue.items = []) (sent : Bytes) :
    writePending writeAll rounds queue sent = some (.ok (sent ++ queue.wire), {}) := by
  obtain ⟨items⟩ := queue
  cases h
  unfold writePending
  rw [if_pos (FastWriteQueue.isEmpty_iff.mpr rfl), wire, flatMap_nil, append_nil]

section

variable {writeAll : List FastWriteItem → Bytes → Option (Except WriteError Bytes)}
    (hw : ∀ items sent, writeAll items sent = some (.ok (sent ++ items.flatMap FastWriteItem.wire)))
include hw

theorem writeBatch_eq (batch : List FastWriteItem) (sent : Bytes) :
    writeBatch writeAll batch sent = some (.ok (sent ++ batch.flatMap FastWriteItem.wire)) := by
  unfold writeBatch
  split
  · simp [FastWriteItem.wire]
  · exact hw batch sent

/-- Both batch writers deliver their batch, so the loop delivers the queue and empties it. -/
theorem writePending_eq
    (rounds : ℕ) : ∀ (queue : FastWriteQueue) (sent : Bytes), queue.items.length ≤ rounds →
      writePending writeAll rounds queue sent = some (.ok (sent ++ queue.wire), {}) := by
  induction rounds with
  | zero =>
    intro queue sent hlen
    exact writePending_of_nil writeAll 0 (length_eq_zero_iff.mp (Nat.le_zero.mp hlen)) sent
  | succ rounds ih =>
    intro queue sent hlen
    by_cases hnil : queue.items = []
    · exact writePending_of_nil writeAll _ hnil sent
    · rw [writePending, if_neg (fun h => hnil (FastWriteQueue.isEmpty_iff.mp h))]
      have hpos := batchSize_pos maxWritevIovecs hnil
      generalize hsize : batchSize maxWritevIovecs queue.items 0 0 = size at hpos
      have hdrain : queue.drainIovecBatch maxWritevIovecs =
          (queue.items.take size, ⟨queue.items.drop size⟩) := by
        rw [drainIovecBatch, hsize]
      have hsplit : (queue.items.take size).flatMap FastWriteItem.wire ++
          wire ⟨queue.items.drop size⟩ = queue.wire := by
        change _ ++ (queue.items.drop size).flatMap FastWriteItem.wire = _
        rw [← flatMap_append, take_append_drop]
        rfl
      rw [hdrain]
      dsimp only
      rw [writeBatch_eq hw]
      dsimp only
      rw [ih _ _ (by rw [length_drop]; omega), append_assoc, hsplit]

end

theorem flushBytes_spec (queue : FastWriteQueue) (out : Bytes) :
    (queue.flushBytes out).out = [] ∧ (queue.flushBytes out).queue.wire = queue.wire ++ out := by
  unfold flushBytes
  split_ifs with h
  · refine ⟨rfl, ?_⟩
    simp [wire, FastWriteItem.wire]
  · obtain rfl : out = [] := by simpa using h
    exact ⟨rfl, (append_nil _).symm⟩

theorem materializeItems_eq (items : List FastWriteItem) : ∀ out,
    materializeItems items out = out ++ items.flatMap FastWriteItem.wire := by
  induction items with
  | nil => exact fun out => (append_nil out).symm
  | cons item items ih =>
    intro out
    rw [flatMap_cons]
    cases item <;> simp [materializeItems, ih, FastWriteItem.wire]

theorem materializeOptional_eq (queue : FastWriteQueue) (out : Bytes) :
    materializeOptional (some queue) out = (out ++ queue.wire, some {}) := by
  unfold materializeOptional
  dsimp only
  split_ifs with h
  · rw [materializeInto, materializeItems_eq]
    rfl
  · obtain ⟨items⟩ := queue
    obtain rfl : items = [] := by simpa [isEmpty] using h
    simp [wire]

end FastWriteQueue

/-- Whichever path flushes, the socket gets the queue and then the buffer. -/
theorem ReplyBuffers.flush_eq (buffers : ReplyBuffers) (sink : Sink UInt8) (sent : Bytes)
    (path : FlushPath) :
    buffers.flush sink sent path = some (.ok (sent ++ buffers.pending)) := by
  obtain ⟨hout, hwire⟩ := flushBytes_spec buffers.queue buffers.out
  have hempty : buffers.queue.isEmpty = true → buffers.pending = buffers.out := by
    intro h
    rw [pending, wire, FastWriteQueue.isEmpty_iff.mp h]
    rfl
  cases path with
  | tokio =>
    unfold flush
    dsimp only
    cases hq : buffers.queue.isEmpty with
    | false =>
      rw [if_pos Bool.not_false, writePendingTokio, writePending_eq
        (writeAll_eq sink) _ _ _ le_rfl, hwire]
      rfl
    | true =>
      rw [if_neg (by simp), hempty hq]
      split_ifs with hb
      · rfl
      · obtain hnil : buffers.out = [] := by simpa using hb
        rw [hnil, append_nil]
  | monoio =>
    unfold flush
    dsimp only
    rw [writePendingMonoio, writePending_eq
      (FastWriteBatchIoVec.writeAll_eq sink) _ _ _ le_rfl, hwire]
    rfl
  | routedWorker =>
    unfold flush
    dsimp only
    cases hq : buffers.queue.isEmpty with
    | false =>
      rw [if_pos Bool.not_false, materializeOptional_eq, hout, hwire]
      rfl
    | true => rw [if_neg (by simp), hempty hq]

namespace FastWriteQueue

/-- However short the writes are, both writers deliver the bytes of a batch and of
the whole queue once and in order, and the queue is then empty. -/
theorem vectoredWrites_deliver_exactly_once (sink : Sink UInt8) (queue : FastWriteQueue)
    (sent : Bytes) :
    (∀ items : List FastWriteItem, writeAll sink items sent =
          some (.ok (sent ++ items.flatMap FastWriteItem.wire)) ∧
        FastWriteBatchIoVec.writeAll sink items sent =
          some (.ok (sent ++ items.flatMap FastWriteItem.wire))) ∧
      queue.writePendingTokio sink sent = some (.ok (sent ++ queue.wire), {}) ∧
      queue.writePendingMonoio sink sent = some (.ok (sent ++ queue.wire), {}) :=
  ⟨fun items => ⟨writeAll_eq sink items sent, FastWriteBatchIoVec.writeAll_eq sink items sent⟩,
    writePending_eq (writeAll_eq sink) _ _ _ le_rfl,
    writePending_eq (FastWriteBatchIoVec.writeAll_eq sink) _ _ _ le_rfl⟩

end FastWriteQueue

/-- The wire forms of a value reply, however it is written. -/
def fastValueReply (payload : Bytes) : Bytes := fastValueHeader payload.length ++ payload

def respValueReply (payload : Bytes) : Bytes :=
  36 :: decimalBytes payload.length ++ respCrlf ++ payload ++ respCrlf

/-- What one pipelined command does to the reply buffers of its connection. -/
inductive ReplyStep
  | plain (reply : Bytes)
  | fastValue (payload : SharedBytes)
  | respValue (payload : SharedBytes)
  | barrier (mutatesValue : Bool)

namespace ReplyStep

/-- The bytes a client is owed for a step. -/
def reply : ReplyStep → Bytes
  | .plain reply => reply
  | .fastValue payload => fastValueReply payload.data
  | .respValue payload => respValueReply payload.data
  | .barrier _ => []

variable (buffers : ReplyBuffers)

def apply : ReplyStep → ReplyBuffers
  | .plain reply => { buffers with out := buffers.out ++ reply }
  | .fastValue payload => buffers.queue.pushFastValue buffers.out payload
  | .respValue payload => buffers.queue.pushRespValue buffers.out payload
  | .barrier mutatesValue =>
    let (out, queue) := materializeOnMutation (some buffers.queue) buffers.out mutatesValue
    { out, queue := queue.getD {} }

variable (steps : List ReplyStep)

def run : ReplyBuffers := steps.foldl apply {}

/-- Everything the client receives when the steps run and the batch is flushed. -/
def delivered (sink : Sink UInt8) (path : FlushPath) (steps : List ReplyStep) :
    Option (Except WriteError Bytes) :=
  (run steps).flush sink [] path

/-- The replies in request order. -/
def replies : Bytes := steps.flatMap reply

theorem writeFastValue64_eq (out payload : Bytes) :
    writeFastValue64 out payload = writeFastValue out payload := by
  unfold writeFastValue64
  split_ifs with h
  · rfl
  · rw [not_not.mp h |>.symm]
    rfl

theorem writeRespBlobString_eq (out payload : Bytes) :
    writeRespBlobString out payload = out ++ respValueReply payload := by
  unfold writeRespBlobString respValueReply
  split_ifs with h
  · rw [decimalBytes_of_lt h]
    simp [respCrlf]
  · simp

variable (payload : SharedBytes)

/-- The header array holds the header text. -/
theorem take_respBlobHeader :
    (respBlobHeader payload.data.length).bytes.take (respBlobHeader payload.data.length).len =
      36 :: decimalBytes payload.data.length ++ respCrlf := by
  have hdigits := length_decimalBytes_le payload.size_lt
  have hlen : (respBlobHeader payload.data.length).len =
      (36 :: decimalBytes payload.data.length ++ respCrlf).length := by
    change (1 + (decimalBytes payload.data.length).length + 2) % 256 = _
    rw [Nat.mod_eq_of_lt (by omega)]
    simp [respCrlf]
    omega
  rw [hlen]
  exact take_left

theorem pending_pushFastValue :
    (buffers.queue.pushFastValue buffers.out payload).pending =
      buffers.pending ++ fastValueReply payload.data := by
  obtain ⟨hout, hwire⟩ := flushBytes_spec buffers.queue buffers.out
  unfold pushFastValue fastValueReply ReplyBuffers.pending
  dsimp only
  split_ifs
  · rw [writeFastValue64_eq]
    simp [writeFastValue]
  · rw [hout, append_nil, ← hwire]
    simp [wire, FastWriteItem.wire]
  · simp [writeFastValue]

theorem pending_pushRespValue :
    (buffers.queue.pushRespValue buffers.out payload).pending =
      buffers.pending ++ respValueReply payload.data := by
  obtain ⟨hout, hwire⟩ := flushBytes_spec buffers.queue buffers.out
  unfold pushRespValue ReplyBuffers.pending
  split_ifs
  · rw [writeRespBlobString_eq, append_assoc]
  · rw [hout, append_nil, ← hwire]
    unfold wire
    rw [flatMap_append, flatMap_singleton, FastWriteItem.wire, take_respBlobHeader]
    rfl

theorem barrier_eq : apply buffers (.barrier true) =
      { out := buffers.out ++ buffers.queue.wire, queue := {} } := by
  unfold apply materializeOnMutation
  dsimp only
  rw [if_pos rfl, materializeOptional_eq]
  rfl

/-- Moving the queue behind the buffer does no harm: the two concatenations agree. -/
def BarrierKeepsOrder : Prop :=
  buffers.out ++ buffers.queue.wire = buffers.queue.wire ++ buffers.out

/-- A step is safe in a state unless it is a barrier that would swap queue and buffer. -/
def Safe : ReplyStep → Prop
  | .barrier true => BarrierKeepsOrder buffers
  | _ => True

theorem pending_apply_iff (step : ReplyStep) :
    (apply buffers step).pending = buffers.pending ++ step.reply ↔ Safe buffers step := by
  cases step with
  | plain => exact iff_of_true (append_assoc ..).symm trivial
  | fastValue => exact iff_of_true (pending_pushFastValue buffers _) trivial
  | respValue => exact iff_of_true (pending_pushRespValue buffers _) trivial
  | barrier mutatesValue =>
    cases mutatesValue with
    | false => exact iff_of_true (append_nil _).symm trivial
    | true =>
      rw [barrier_eq, reply, append_nil]
      exact Iff.rfl

/-- Every step of the list is safe in the state in which it runs. -/
def RunSafe (buffers : ReplyBuffers) : List ReplyStep → Prop
  | [] => True
  | step :: steps => Safe buffers step ∧ RunSafe (apply buffers step) steps

theorem RunSafe.front {front rest : List ReplyStep} : ∀ {buffers : ReplyBuffers},
    RunSafe buffers (front ++ rest) → RunSafe buffers front := by
  induction front with
  | nil => exact fun _ => trivial
  | cons step front ih => exact fun h => ⟨h.1, ih h.2⟩

theorem pending_foldl : ∀ {buffers : ReplyBuffers},
    RunSafe buffers steps → (steps.foldl apply buffers).pending = buffers.pending ++
      replies steps := by
  induction steps with
  | nil => exact fun _ => (append_nil _).symm
  | cons step steps ih =>
    intro buffers h
    rw [foldl_cons, ih h.2, (pending_apply_iff buffers step).mpr h.1, append_assoc]
    rfl

/-- A prefix whose flush is in order, for every prefix, leaves only safe steps. -/
theorem runSafe_of_prefixes : ∀ {buffers : ReplyBuffers}, (∀ front, front <+: steps →
      (front.foldl apply buffers).pending = buffers.pending ++ replies front) →
      RunSafe buffers steps := by
  induction steps with
  | nil => exact fun _ => trivial
  | cons step steps ih =>
    intro buffers h
    have hstep : (apply buffers step).pending = buffers.pending ++ step.reply := by
      have hone := h [step] (prefix_cons_inj step |>.mpr List.nil_prefix)
      rwa [replies, flatMap_singleton] at hone
    refine ⟨(pending_apply_iff buffers step).mp hstep, ih fun front hfront => ?_⟩
    have hfull := h (step :: front) ((prefix_cons_inj step).mpr hfront)
    rw [hstep, append_assoc]
    exact hfull

theorem delivered_eq (sink : Sink UInt8) (path : FlushPath) (steps : List ReplyStep) :
    delivered sink path steps = some (.ok (run steps).pending) :=
  (run steps).flush_eq sink [] path

/-- The replies reach the socket in request order, after every step and on every
path, exactly when no barrier runs while the queue and the bytes buffered after
it would change places. -/
theorem delivered_in_order_iff (steps : List ReplyStep) : (∀ front, front <+: steps → ∀ sink path,
      delivered sink path front = some (.ok (replies front))) ↔ RunSafe {} steps := by
  constructor
  · intro h
    apply runSafe_of_prefixes
    intro front hfront
    have hdelivered := h front hfront (Sink.whole UInt8) .tokio
    rw [delivered_eq] at hdelivered
    exact Except.ok.inj (Option.some.inj hdelivered)
  · intro h front hfront sink path
    obtain ⟨rest, rfl⟩ := hfront
    rw [delivered_eq]
    exact congrArg _ (congrArg _ (pending_foldl front h.front))

/-- A value at the zero-copy threshold. -/
def thresholdValue : SharedBytes where
  data := List.replicate respZeroCopyValueThreshold 0
  size_lt := by
    rw [List.length_replicate]
    decide

/-- A large value is queued, a small reply is buffered, and then a write arrives. -/
def overtakenRun : List ReplyStep :=
  [.respValue thresholdValue, .plain [43, 80, 79, 78, 71, 13, 10], .barrier true,
    .plain [43, 79, 75, 13, 10]]

/-- The client gets the small reply first, although its request came second. -/
theorem overtakenRun_out_of_order :
    delivered (Sink.whole UInt8) .tokio overtakenRun ≠ some (.ok (replies overtakenRun)) := by
  intro heq
  rw [delivered_eq] at heq
  have hhead := congrArg List.head? (Except.ok.inj (Option.some.inj heq))
  have hqueued : ¬ thresholdValue.data.length < respZeroCopyValueThreshold := by
    rw [thresholdValue, length_replicate]
    exact lt_irrefl _
  have hpending : (run overtakenRun).pending.head? = some 43 := by
    simp only [run, overtakenRun, foldl_cons, foldl_nil, barrier_eq]
    simp [apply, pushRespValue, hqueued, ReplyBuffers.pending, flushBytes, wire]
  rw [hpending] at hhead
  simp [replies, overtakenRun, reply, respValueReply] at hhead

end ReplyStep
end ShardKv
