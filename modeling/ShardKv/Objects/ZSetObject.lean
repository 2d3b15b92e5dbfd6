import Mathlib.Data.List.AList
import Mathlib.Data.Prod.Lex
import ShardKv.Foundations.OrderedIndex

/-!
# Redis sorted-set objects

Up to four members live in one sorted inline vector. The fifth member promotes
the object, once and for good, to a score map together with an ordered index
over `(score, member)` keys. The index comes from an external crate and is a
parameter here; scores are any linearly ordered type, which is what the total
comparison of floats provides.
-/
namespace ShardKv

universe u

variable {σ μ : Type u} [LinearOrder σ] [LinearOrder μ]

/-- The key of the ordered index: score first, then member. -/
abbrev ZSetOrderKey (σ μ : Type u) := σ ×ₗ μ

/-- The index key of a stored `(member, score)` pair. -/
def orderKey (entry : μ × σ) : ZSetOrderKey σ μ := toLex (entry.2, entry.1)

/-- The stored `(member, score)` pair of an index key. -/
def entryOf (key : ZSetOrderKey σ μ) : μ × σ := ((ofLex key).2, (ofLex key).1)

def smallZSetInline : ℕ := 4

inductive RedisObjectArrayItem (μ : Type u)
  | begin (count : ℕ)
  | bulk (value : Option μ)
  deriving DecidableEq

inductive RedisObjectZSetRangeItem (σ μ : Type u)
  | begin (count : ℕ)
  | entry (member : μ) (score : σ)
  deriving DecidableEq

/-- Inclusive bounds of a range request over `len` elements, or `none` when it selects nothing. -/
def normalizeRange (start stop : ℤ) (len : ℕ) : Option (ℕ × ℕ) :=
  if len = 0 then none
  else
    let start := if start < 0 then (len : ℤ) + start else start
    let stop := if stop < 0 then (len : ℤ) + stop else stop
    let start := if start < 0 then 0 else start
    if stop < 0 then none
    else if (len : ℤ) ≤ start then none
    else
      let stop := if (len : ℤ) ≤ stop then (len : ℤ) - 1 else stop
      if start ≤ stop then some (start.toNat, stop.toNat) else none

/-- Stable sort by score, ties by member. -/
def sortSmallZSet (entries : List (μ × σ)) : List (μ × σ) :=
  entries.insertionSort fun left right => orderKey left ≤ orderKey right

/-- Overwrite the score of the first entry of a member. -/
def setScore (member : μ) (score : σ) : List (μ × σ) → List (μ × σ)
  | [] => []
  | (existing, old) :: entries =>
    if existing = member then (existing, score) :: entries
    else (existing, old) :: setScore member score entries

inductive ZSetObject (T : OrderedIndex (ZSetOrderKey σ μ))
  | small (entries : List (μ × σ))
  | map (scores : AList fun _ : μ => σ) (ordered : T.Carrier)

namespace ZSetObject

variable {T : OrderedIndex (ZSetOrderKey σ μ)} (object : ZSetObject T) (member : μ)

def single (score : σ) : ZSetObject T := .small [(member, score)]

def mapWithCapacity : ZSetObject T := .map ∅ T.new

/-- Moving the inline entries into the two indexes, one after the other. -/
def promote : List (μ × σ) → AList (fun _ : μ => σ) → T.Carrier → AList (fun _ : μ => σ) × T.Carrier
  | [], scores, ordered => (scores, ordered)
  | (member, score) :: entries, scores, ordered =>
    promote entries (scores.insert member score) (T.insert ordered (orderKey (member, score)))

def insertSlice (score : σ) : Bool × ZSetObject T :=
  match object with
  | .small entries =>
    let onlyEntry := match entries with
      | [(existing, _)] => decide (existing = member)
      | _ => false
    if onlyEntry then (false, .small (setScore member score entries))
    else if entries.any (fun entry => decide (entry.1 = member)) then
      (false, .small (sortSmallZSet (setScore member score entries)))
    else if entries.length < smallZSetInline then
      (true, .small (sortSmallZSet (entries ++ [(member, score)])))
    else
      let indexes := promote entries ∅ T.new
      (true, .map (indexes.1.insert member score) (T.insert indexes.2 (orderKey (member, score))))
  | .map scores ordered =>
    match scores.lookup member with
    | some oldScore =>
      if oldScore ≠ score then
        let ordered := T.remove ordered (orderKey (member, oldScore))
        (false, .map (scores.insert member score) (T.insert ordered (orderKey (member, score))))
      else (false, .map scores ordered)
    | none =>
      (true, .map (scores.insert member score) (T.insert ordered (orderKey (member, score))))

def remove : Bool × ZSetObject T :=
  match object with
  | .small entries =>
    match entries.findIdx? (fun entry => decide (entry.1 = member)) with
    | none => (false, .small entries)
    | some index => (true, .small (entries.eraseIdx index))
  | .map scores ordered =>
    match scores.lookup member with
    | none => (false, .map scores ordered)
    | some score =>
      (true, .map (scores.erase member) (T.remove ordered (orderKey (member, score))))

def score : Option σ :=
  match object with
  | .small entries =>
    entries.findSome? fun entry => if entry.1 = member then some entry.2 else none
  | .map scores _ => scores.lookup member

def len : ZSetObject T → ℕ
  | .small entries => entries.length
  | .map scores _ => scores.keys.length

def isEmpty : ZSetObject T → Bool
  | .small entries => entries.isEmpty
  | .map scores _ => scores.keys.isEmpty

variable (ordered : T.Carrier)

def extremeOrderedItem (max : Bool) : Option (ZSetOrderKey σ μ) :=
  if max then T.getLast ordered else T.getFirst ordered

def popSmall (max : Bool) : ℕ → List (μ × σ) → List (μ × σ) × List (μ × σ)
  | 0, entries => ([], entries)
  | take + 1, entries =>
    let index := if max then entries.length - 1 else 0
    match entries[index]? with
    | none => ([], entries)
    | some entry =>
      let rest := popSmall max take (entries.eraseIdx index)
      (entry :: rest.1, rest.2)

def popMap (max : Bool) : ℕ → AList (fun _ : μ => σ) → T.Carrier →
    List (μ × σ) × AList (fun _ : μ => σ) × T.Carrier
  | 0, scores, ordered => ([], scores, ordered)
  | take + 1, scores, ordered =>
    match extremeOrderedItem ordered max with
    | none => ([], scores, ordered)
    | some item =>
      let rest := popMap max take (scores.erase (entryOf item).1) (T.remove ordered item)
      (entryOf item :: rest.1, rest.2)

def popExtreme (count : ℕ) (max : Bool) : List (μ × σ) × ZSetObject T :=
  match object with
  | .small entries =>
    let out := popSmall max (min count entries.length) entries
    (out.1, .small out.2)
  | .map scores ordered =>
    let out := popMap max (min count scores.keys.length) scores ordered
    (out.1, .map out.2.1 out.2.2)

def rank (rev : Bool) : Option ℕ :=
  match object with
  | .small entries =>
    if rev then entries.reverse.findIdx? (fun entry => decide (entry.1 = member))
    else entries.findIdx? (fun entry => decide (entry.1 = member))
  | .map scores ordered =>
    (scores.lookup member).bind fun targetScore =>
      (T.getIndexFromKey ordered (orderKey (member, targetScore))).map fun rank =>
        if rev then T.len ordered - rank - 1 else rank

/-- The index walk used for ranges that start far from the front. -/
def keysFromIndices (start stop : ℕ) : List (ZSetOrderKey σ μ) :=
  (List.range' start (stop + 1 - start)).filterMap (T.getKeyFromIndex ordered)

/-- The forward walk over the ordered index, by position or by skipping. -/
def orderedSlice (start stop : ℕ) : List (ZSetOrderKey σ μ) :=
  let count := stop - start + 1
  if count < start then keysFromIndices ordered start stop
  else ((T.iter ordered).drop start).take count

variable (start stop : ℤ)

def range : List (Option μ) :=
  match object with
  | .small entries =>
    match normalizeRange start stop entries.length with
    | none => []
    | some (start, stop) =>
      ((entries.drop start).take (stop - start + 1)).map fun entry => some entry.1
  | .map _ ordered =>
    match normalizeRange start stop (T.len ordered) with
    | none => []
    | some (start, stop) => (orderedSlice ordered start stop).map fun key => some (entryOf key).1

/-- The emitted items, in order. -/
def rangeVisit : List (RedisObjectArrayItem μ) :=
  match object with
  | .small entries =>
    match normalizeRange start stop entries.length with
    | none => [.begin 0]
    | some (start, stop) =>
      let count := stop - start + 1
      .begin count :: ((entries.drop start).take count).map fun entry => .bulk (some entry.1)
  | .map _ ordered =>
    match normalizeRange start stop (T.len ordered) with
    | none => [.begin 0]
    | some (start, stop) =>
      .begin (stop - start + 1) ::
        (orderedSlice ordered start stop).map fun key => .bulk (some (entryOf key).1)

/-- The emitted items, in order. A reverse walk over the indexes goes by position. -/
def rangeEntriesVisit (rev : Bool) : List (RedisObjectZSetRangeItem σ μ) :=
  match object with
  | .small entries =>
    match normalizeRange start stop entries.length with
    | none => [.begin 0]
    | some (start, stop) =>
      let count := stop - start + 1
      let walked := if rev then entries.reverse else entries
      .begin count :: ((walked.drop start).take count).map fun entry => .entry entry.1 entry.2
  | .map _ ordered =>
    match normalizeRange start stop (T.len ordered) with
    | none => [.begin 0]
    | some (start, stop) =>
      let keys :=
        if rev then
          let first := T.len ordered - 1 - stop
          let last := T.len ordered - 1 - start
          (List.range' first (last + 1 - first)).reverse.filterMap (T.getKeyFromIndex ordered)
        else orderedSlice ordered start stop
      .begin (stop - start + 1) :: keys.map fun key => .entry (entryOf key).1 (entryOf key).2

def entries : ZSetObject T → List (μ × σ)
  | .small entries => entries
  | .map _ ordered => (T.iter ordered).map entryOf

end ZSetObject
end ShardKv
