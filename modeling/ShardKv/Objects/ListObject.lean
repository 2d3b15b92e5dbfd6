import ShardKv.Foundations.Bytes
import ShardKv.Foundations.Ring

/-!
# Redis list objects

The list container keeps short lists in an eight-slot ring and longer ones in
a deque of 32-slot chunks. The definitions follow the ring, chunk, segmented
and enum layers one to one. Wherever the code would panic — an `expect`, an
`unreachable!`, a debug assertion, a vector index or a length subtraction —
the model returns the matching `ListFault`, so that freedom from panics is a
statement about results.
-/
namespace ShardKv

/-- The panic sites of the list container. -/
inductive ListFault
  | singleEntryListMissingValue
  | singleListReplacedWithNonSingle
  | singleEntrySmallListHasCapacity
  | smallListCapacityBeforeConstruction
  | smallListCapacityBeforePush
  | smallListSlotMissingValue
  | frontChunkCapacityBeforePush
  | backChunkCapacityBeforePush
  | newListChunkHasCapacity
  | chunkUnderCapacityAfterRemove
  | listChunkSlotMissingValue
  | debugAssertion
  | vecIndexOutOfBounds
  | lengthUnderflow
  deriving DecidableEq, Repr

/-- `Result::expect`. -/
def expectOk {ε α : Type} (fault : ListFault) : Except ε α → Except ListFault α
  | .ok a => .ok a
  | .error _ => .error fault

/-- `Option::expect`. -/
def expectSome {α : Type} (fault : ListFault) : Option α → Except ListFault α
  | some a => .ok a
  | none => .error fault

/-- `debug_assert!`. -/
def debugAssert (p : Bool) : Except ListFault Unit :=
  if p then .ok () else .error .debugAssertion

/-- `Vec::insert`, which panics past the end. -/
def vecInsert (values : List Bytes) (index : ℕ) (value : Bytes) : Except ListFault (List Bytes) :=
  if index ≤ values.length then .ok (values.insertIdx index value)
  else .error .vecIndexOutOfBounds

/-- `Vec::remove`, which panics past the end. -/
def vecRemove (values : List Bytes) (index : ℕ) : Except ListFault (Bytes × List Bytes) :=
  match values[index]? with
  | some value => .ok (value, values.eraseIdx index)
  | none => .error .vecIndexOutOfBounds

/-- Subtraction on `usize`. -/
def usizeSub (a b : ℕ) : Except ListFault ℕ :=
  if b ≤ a then .ok (a - b) else .error .lengthUnderflow

def smallListInline : ℕ := 8

def listChunkCapacity : ℕ := 32

instance : NeZero smallListInline := ⟨by decide⟩

instance : NeZero listChunkCapacity := ⟨by decide⟩

abbrev SmallListDeque := Ring Bytes smallListInline

namespace SmallListDeque

variable (list : SmallListDeque)

def pushAll (list : SmallListDeque) : List Bytes → Except ListFault SmallListDeque
  | [] => .ok list
  | value :: values => do
    let list ← expectOk .smallListCapacityBeforeConstruction (list.pushBack value)
    pushAll list values

def fromVec (values : List Bytes) : Except ListFault SmallListDeque := do
  debugAssert (values.length ≤ smallListInline)
  pushAll Ring.new values

def takeAll : Except ListFault (List Bytes × SmallListDeque) :=
  expectSome .smallListSlotMissingValue (Ring.takeAll list)

/-- The outer layer reports panics, the inner one the value a full ring rejects. -/
def insert (index : ℕ) (value : Bytes) :
    Except ListFault (Except Bytes SmallListDeque) :=
  if list.isFull then .ok (.error value)
  else do
    let out ← takeAll list
    let values ← vecInsert out.1 index value
    let list ← fromVec values
    .ok (.ok list)

def remove (index : ℕ) : Except ListFault (Option Bytes × SmallListDeque) :=
  if list.len ≤ index then .ok (none, list)
  else do
    let out ← takeAll list
    let removed ← vecRemove out.1 index
    let list ← fromVec removed.2
    .ok (some removed.1, list)

def pushValuesSmall (list : SmallListDeque) (front : Bool) :
    List Bytes → Except ListFault SmallListDeque
  | [] => .ok list
  | value :: values => do
    let list ← expectOk .smallListCapacityBeforePush
      (if front then list.pushFront value else list.pushBack value)
    pushValuesSmall list front values

end SmallListDeque

abbrev ListChunk := Ring Bytes listChunkCapacity

namespace ListChunk

def takeAll (chunk : ListChunk) : Except ListFault (List Bytes × ListChunk) :=
  expectSome .listChunkSlotMissingValue (Ring.takeAll chunk)

def refill (chunk : ListChunk) : List Bytes → Except ListFault ListChunk
  | [] => .ok chunk
  | value :: values => do
    let chunk ← expectOk .chunkUnderCapacityAfterRemove (chunk.pushBack value)
    refill chunk values

/-- Unlike the inline ring, a chunk refills itself instead of building a new one. -/
def remove (chunk : ListChunk) (index : ℕ) : Except ListFault (Option Bytes × ListChunk) :=
  if chunk.len ≤ index then .ok (none, chunk)
  else do
    let out ← takeAll chunk
    let removed ← vecRemove out.1 index
    let chunk ← refill out.2 removed.2
    .ok (some removed.1, chunk)

end ListChunk

structure SegmentedList where
  chunks : List ListChunk
  len : ℕ

namespace SegmentedList

variable (list : SegmentedList)

def new : SegmentedList := { chunks := [], len := 0 }

variable (value : Bytes)

def pushFrontChunk : Except ListFault SegmentedList := do
  let chunk ← expectOk .newListChunkHasCapacity ((Ring.new : ListChunk).pushFront value)
  .ok { chunks := chunk :: list.chunks, len := list.len + 1 }

def pushFront : Except ListFault SegmentedList :=
  match list.chunks with
  | [] => list.pushFrontChunk value
  | chunk :: rest =>
    if chunk.isFull then list.pushFrontChunk value
    else do
      let chunk ← expectOk .frontChunkCapacityBeforePush (chunk.pushFront value)
      .ok { chunks := chunk :: rest, len := list.len + 1 }

def pushBackChunk : Except ListFault SegmentedList := do
  let chunk ← expectOk .newListChunkHasCapacity ((Ring.new : ListChunk).pushBack value)
  .ok { chunks := list.chunks ++ [chunk], len := list.len + 1 }

def pushBack : Except ListFault SegmentedList :=
  match list.chunks.getLast? with
  | none => list.pushBackChunk value
  | some chunk =>
    if chunk.isFull then list.pushBackChunk value
    else do
      let chunk ← expectOk .backChunkCapacityBeforePush (chunk.pushBack value)
      .ok { chunks := list.chunks.dropLast ++ [chunk], len := list.len + 1 }

def pushAll (list : SegmentedList) : List Bytes → Except ListFault SegmentedList
  | [] => .ok list
  | value :: values => do
    let list ← list.pushBack value
    pushAll list values

def fromVec (values : List Bytes) : Except ListFault SegmentedList := pushAll new values

def pushValues (list : SegmentedList) (front : Bool) : List Bytes → Except ListFault SegmentedList
  | [] => .ok list
  | value :: values => do
    let list ← if front then list.pushFront value else list.pushBack value
    pushValues list front values

def popFront : Except ListFault (Option Bytes × SegmentedList) :=
  match list.chunks with
  | [] => .ok (none, list)
  | chunk :: rest =>
    match chunk.popFront with
    | (none, chunk) => .ok (none, { list with chunks := chunk :: rest })
    | (some value, chunk) => do
      let len ← usizeSub list.len 1
      .ok (some value, { chunks := if chunk.isEmpty then rest else chunk :: rest, len := len })

def popBack : Except ListFault (Option Bytes × SegmentedList) :=
  match list.chunks.getLast? with
  | none => .ok (none, list)
  | some chunk =>
    let rest := list.chunks.dropLast
    match chunk.popBack with
    | (none, chunk) => .ok (none, { list with chunks := rest ++ [chunk] })
    | (some value, chunk) => do
      let len ← usizeSub list.len 1
      .ok (some value, { chunks := if chunk.isEmpty then rest else rest ++ [chunk], len := len })

/-- Walk the chunks front to back until the offset falls inside one. -/
def getForward : List ListChunk → ℕ → Option Bytes
  | [], _ => none
  | chunk :: rest, offset =>
    if offset < chunk.len then chunk.get offset else getForward rest (offset - chunk.len)

/-- The same walk over the reversed deque, with the offset counted from the end. -/
def getBackward : List ListChunk → ℕ → Option Bytes
  | [], _ => none
  | chunk :: rest, offset =>
    if offset < chunk.len then chunk.get (chunk.len - offset - 1)
    else getBackward rest (offset - chunk.len)

variable (index : ℕ)

def get : Option Bytes :=
  if list.len ≤ index then none
  else if index ≤ list.len / 2 then getForward list.chunks index
  else getBackward list.chunks.reverse (list.len - index - 1)

def setForward (value : Bytes) : List ListChunk → ℕ → List ListChunk
  | [], _ => []
  | chunk :: rest, offset =>
    if offset < chunk.len then chunk.set offset value :: rest
    else chunk :: setForward value rest (offset - chunk.len)

def setBackward (value : Bytes) : List ListChunk → ℕ → List ListChunk
  | [], _ => []
  | chunk :: rest, offset =>
    if offset < chunk.len then chunk.set (chunk.len - offset - 1) value :: rest
    else chunk :: setBackward value rest (offset - chunk.len)

def set (value : Bytes) : Except ListFault SegmentedList :=
  if index ≤ list.len / 2 then
    .ok { list with chunks := setForward value list.chunks index }
  else do
    let offset ← usizeSub list.len index
    let offset ← usizeSub offset 1
    .ok { list with chunks := (setBackward value list.chunks.reverse offset).reverse }

def takeChunks : List ListChunk → Except ListFault (List Bytes)
  | [] => .ok []
  | chunk :: rest => do
    let out ← ListChunk.takeAll chunk
    let values ← takeChunks rest
    .ok (out.1 ++ values)

def takeAll : Except ListFault (List Bytes × SegmentedList) := do
  let values ← takeChunks list.chunks
  .ok (values, new)

def insert (value : Bytes) : Except ListFault SegmentedList :=
  if index = 0 then list.pushFront value
  else if list.len ≤ index then list.pushBack value
  else do
    let out ← list.takeAll
    let values ← vecInsert out.1 index value
    fromVec values

/-- The chunk walk of `remove`; the outer `none` is a walk past the last chunk. -/
def removeFrom : List ListChunk → ℕ → Except ListFault (Option (Option Bytes × List ListChunk))
  | [], _ => .ok none
  | chunk :: rest, offset =>
    if offset < chunk.len then do
      let out ← ListChunk.remove chunk offset
      .ok (some (out.1, if out.2.isEmpty then rest else out.2 :: rest))
    else do
      let found ← removeFrom rest (offset - chunk.len)
      .ok (found.map fun out => (out.1, chunk :: out.2))

def remove : Except ListFault (Option Bytes × SegmentedList) :=
  if list.len ≤ index then .ok (none, list)
  else do
    match ← removeFrom list.chunks index with
    | none => .ok (none, list)
    | some out =>
      let len ← usizeSub list.len 1
      .ok (out.1, { chunks := out.2, len := len })

def clear (_list : SegmentedList) : SegmentedList := new

end SegmentedList

def SmallListDeque.intoSegmented (list : SmallListDeque) : Except ListFault SegmentedList := do
  let out ← takeAll list
  SegmentedList.pushAll .new out.1

/-- Both ring iterators hold the ring and the next logical index. -/
structure RingIter (cap : ℕ) where
  ring : Ring Bytes cap
  index : ℕ

def RingIter.next {cap : ℕ} [NeZero cap] (it : RingIter cap) : Option (Bytes × RingIter cap) :=
  (it.ring.get it.index).map fun value => (value, { it with index := it.index + 1 })

structure SegmentedListIter where
  chunks : List ListChunk
  current : Option (RingIter listChunkCapacity)

namespace SegmentedListIter

/-- The loop body after the current chunk ran out: open the next chunk and retry. -/
def advance : List ListChunk → Option (Bytes × SegmentedListIter)
  | [] => none
  | chunk :: rest =>
    match RingIter.next { ring := chunk, index := 0 } with
    | some (value, current) => some (value, { chunks := rest, current := some current })
    | none => advance rest

def next (it : SegmentedListIter) : Option (Bytes × SegmentedListIter) :=
  match it.current.bind RingIter.next with
  | some (value, current) => some (value, { it with current := some current })
  | none => advance it.chunks

end SegmentedListIter

inductive ListObject
  | empty
  | single (value : Bytes)
  | small (list : SmallListDeque)
  | segmented (list : SegmentedList)

inductive ListIter
  | empty
  | single (value : Option Bytes)
  | small (it : RingIter smallListInline)
  | segmented (it : SegmentedListIter)

namespace ListIter

def next : ListIter → Option (Bytes × ListIter)
  | .empty => none
  | .single value => value.map fun value => (value, .single none)
  | .small it => it.next.map fun out => (out.1, .small out.2)
  | .segmented it => it.next.map fun out => (out.1, .segmented out.2)

end ListIter

namespace ListObject

variable (object : ListObject)

def fromVec (entries : List Bytes) : Except ListFault ListObject :=
  if entries.length = 0 then .ok .empty
  else if entries.length = 1 then do
    let value ← expectSome .singleEntryListMissingValue entries.head?
    .ok (.single value)
  else if entries.length ≤ smallListInline then do
    let list ← SmallListDeque.fromVec entries
    .ok (.small list)
  else do
    let list ← SegmentedList.fromVec entries
    .ok (.segmented list)

/-- `mem::replace` of a single list by the empty one, returning its value. -/
def replaceSingle : ListObject → Except ListFault Bytes
  | .single value => .ok value
  | _ => .error .singleListReplacedWithNonSingle

/-- Appending to a ring that may have to become a chunk deque first. -/
def pushValuesIntoSmall (list : SmallListDeque) (values : List Bytes) (front : Bool) :
    Except ListFault ListObject :=
  if list.len + values.length ≤ smallListInline then do
    let list ← SmallListDeque.pushValuesSmall list front values
    .ok (.small list)
  else do
    let segmented ← SmallListDeque.intoSegmented list
    let segmented ← segmented.pushValues front values
    .ok (.segmented segmented)

def fromValues (values : List Bytes) (front : Bool) : Except ListFault ListObject :=
  match values with
  | [] => .ok .empty
  | [value] => .ok (.single value)
  | _ => pushValuesIntoSmall Ring.new values front

def pushValues (values : List Bytes) (front : Bool) : Except ListFault ListObject :=
  if values.isEmpty then .ok object
  else
    match object with
    | .empty => fromValues values front
    | .single existing =>
      if 1 + values.length ≤ smallListInline then do
        let list ← expectOk .singleEntrySmallListHasCapacity
          ((Ring.new : SmallListDeque).pushBack existing)
        let list ← SmallListDeque.pushValuesSmall list front values
        .ok (.small list)
      else do
        let list ← SegmentedList.new.pushBack existing
        let list ← list.pushValues front values
        .ok (.segmented list)
    | .small list => pushValuesIntoSmall list values front
    | .segmented list => do
      let list ← list.pushValues front values
      .ok (.segmented list)

def popFront : Except ListFault (Option Bytes × ListObject) :=
  match object with
  | .empty => .ok (none, .empty)
  | .single _ => do
    let value ← object.replaceSingle
    .ok (some value, .empty)
  | .small list => .ok (list.popFront.1, .small list.popFront.2)
  | .segmented list => do
    let out ← list.popFront
    .ok (out.1, .segmented out.2)

def popBack : Except ListFault (Option Bytes × ListObject) :=
  match object with
  | .empty => .ok (none, .empty)
  | .single _ => do
    let value ← object.replaceSingle
    .ok (some value, .empty)
  | .small list => .ok (list.popBack.1, .small list.popBack.2)
  | .segmented list => do
    let out ← list.popBack
    .ok (out.1, .segmented out.2)

def insert (index : ℕ) (value : Bytes) : Except ListFault ListObject :=
  match object with
  | .empty => do
    debugAssert (index = 0)
    .ok (.single value)
  | .single _ => do
    let existing ← object.replaceSingle
    let list ← expectOk .singleEntrySmallListHasCapacity
      ((Ring.new : SmallListDeque).pushBack existing)
    let inserted ← SmallListDeque.insert list index value
    let list ← expectOk .singleEntrySmallListHasCapacity inserted
    .ok (.small list)
  | .small list =>
    if !list.isFull then do
      -- The code drops the rejected value here; the ring is known not to be full.
      match ← SmallListDeque.insert list index value with
      | .ok list => .ok (.small list)
      | .error _ => .ok (.small list)
    else do
      let segmented ← SmallListDeque.intoSegmented list
      let segmented ← segmented.insert index value
      .ok (.segmented segmented)
  | .segmented list => do
    let list ← list.insert index value
    .ok (.segmented list)

def remove (index : ℕ) : Except ListFault (Option Bytes × ListObject) :=
  match object with
  | .empty => .ok (none, .empty)
  | .single _ => do
    debugAssert (index = 0)
    let value ← object.replaceSingle
    .ok (some value, .empty)
  | .small list => do
    let out ← SmallListDeque.remove list index
    .ok (out.1, .small out.2)
  | .segmented list => do
    let out ← list.remove index
    .ok (out.1, .segmented out.2)

def set (index : ℕ) (value : Bytes) : Except ListFault ListObject :=
  match object with
  | .empty => do
    debugAssert (index = 0)
    .ok .empty
  | .single _ => do
    debugAssert (index = 0)
    .ok (.single value)
  | .small list => .ok (.small (list.set index value))
  | .segmented list => do
    let list ← list.set index value
    .ok (.segmented list)

def get : ListObject → ℕ → Option Bytes
  | .empty, _ => none
  | .single value, index => if index = 0 then some value else none
  | .small list, index => list.get index
  | .segmented list, index => list.get index

def len : ListObject → ℕ
  | .empty => 0
  | .single _ => 1
  | .small list => list.len
  | .segmented list => list.len

def isEmpty : Bool := object.len == 0

def clear : ListObject → ListObject
  | .segmented list => .segmented list.clear
  | _ => .empty

def iter : ListObject → ListIter
  | .empty => .empty
  | .single value => .single (some value)
  | .small list => .small { ring := list, index := 0 }
  | .segmented list => .segmented { chunks := list.chunks, current := none }

end ListObject
end ShardKv
