import ShardKv.Objects.BucketCommands

/-!
# The conditions and the errors of `ZADD`

Under `INCR` the options `GT` and `LT` are meant for the score that the member would get. The
bucket compares the increment itself. The command reads a score only when its pair is due, so
that an error can come after writes.
-/
namespace ShardKv

open ZAddFlags
variable {β σ : Type} [LinearOrder β] [LinearOrder σ]

/-- The arithmetic with a comparison that is the order and without infinities. -/
def ScoreArithmetic.ordered (arith : ScoreArithmetic β σ) : ScoreArithmetic β σ :=
  { arith with le := fun a b => decide (a ≤ b), isFinite := fun _ => true }

/-- The member may get the score `candidate` in place of its `existing` one. -/
def ZAddFlags.accepts (flags : ZAddFlags) (existing : Option σ) (candidate : σ) : Bool :=
  (!flags.nx || existing.isNone) && (!flags.xx || existing.isSome) &&
    (!flags.gt || existing.all (· < candidate)) && (!flags.lt || existing.all (candidate < ·))

namespace RedisObjectBucket

variable (b : RedisObjectBucket β σ) (key : β) (arith : ScoreArithmetic β σ) (flags : ZAddFlags)
  (score : σ) (member : β)

omit [LinearOrder β] in
theorem refuses_ordered (existing : Option σ) :
    flags.refuses arith.ordered score existing = !flags.accepts existing score := by
  cases existing <;> simp [refuses, accepts, ScoreArithmetic.ordered, ← not_le]

/-- What the options of `ZADD` mean for one member. -/
def zaddIntended : BucketWrite β σ :=
  let slot := b.zsets.lookup key
  let existing := slot.bind fun zset => zset.score member
  let candidate := flags.nextScore arith score existing
  if b.hasNon key .zset then ⟨.wrongType, false, b⟩
  else if flags.accepts existing candidate then
    let counted := if flags.ch then existing ≠ some candidate else existing = none
    ⟨if flags.incr then .bulk (some (arith.formatScore candidate))
      else .integer (if counted then 1 else 0),
      slot.isNone, b.putSlot key .zset ((slot.getD .empty).insert member candidate)⟩
  else ⟨if flags.incr then .bulk none else .integer 0, false, b⟩

/-- `ZADD` does what its options mean exactly when these say the same of the given number
as of the score that the member would get. -/
theorem zaddCond_intended_iff (b : RedisObjectBucket β σ) :
    let existing := (b.zsets.lookup key).bind fun zset => zset.score member
    b.zaddCond key arith.ordered flags score member = b.zaddIntended key arith flags score member ↔
      b.hasNon key .zset ∨ flags.accepts existing score =
        flags.accepts existing (flags.nextScore arith score existing) := by
  intro existing
  have hexisting : ((b.zsets.lookup key).bind fun zset => zset.score member) = existing := rfl
  have hnext : flags.nextScore arith.ordered score = flags.nextScore arith score := rfl
  have hfinite : arith.ordered.isFinite (flags.nextScore arith score existing) = true := rfl
  simp only [zaddCond, zaddIntended, refuses_ordered, hexisting, hnext, hfinite]
  generalize b.putSlot key .zset _ = after
  cases hnon : b.hasNon key .zset with
  | true => simp
  | false =>
    -- a refusal and a write under `INCR` differ in their replies
    cases hincr : flags.incr with
    | false =>
      have hscore : flags.nextScore arith score existing = score := by
        simp [nextScore, hincr]
      rw [hscore]
      cases flags.accepts existing score with
      | false => simp
      | true => cases existing <;> simp [reply, hincr]
    | true =>
      cases flags.accepts existing score <;>
        cases flags.accepts existing (flags.nextScore arith score existing) <;>
        simp [reply, hincr, ScoreArithmetic.ordered]

/-- An increment of five is not above ten, but the sum is. -/
theorem zaddCond_gt_incr_refused :
    let arith : ScoreArithmetic ℕ ℤ :=
      ⟨0, (· + ·), fun _ => true, fun a b => decide (a ≤ b), fun _ => none, Int.toNat,
        fun _ => none, Int.toNat⟩
    let b := (zaddCond ⟨.empty, ∅, ∅⟩ 0 arith {} 10 1).bucket
    (b.zaddCond 0 arith { gt := true, incr := true } 5 1).reply = .bulk none ∧
      (b.zaddIntended 0 arith { gt := true, incr := true } 5 1).reply = .bulk (some 15) := by
  decide +kernel

end RedisObjectBucket

section Command

variable (eqIgnoreAsciiCase : β → String → Bool) (arith : ScoreArithmetic β σ)

/-- The options in front of the pairs. -/
def zaddOptions (flags : ZAddFlags) : List β → ZAddFlags × List β
  | [] => (flags, [])
  | word :: words =>
    if eqIgnoreAsciiCase word "NX" then zaddOptions { flags with nx := true } words
    else if eqIgnoreAsciiCase word "XX" then zaddOptions { flags with xx := true } words
    else if eqIgnoreAsciiCase word "GT" then zaddOptions { flags with gt := true } words
    else if eqIgnoreAsciiCase word "LT" then zaddOptions { flags with lt := true } words
    else if eqIgnoreAsciiCase word "CH" then zaddOptions { flags with ch := true } words
    else if eqIgnoreAsciiCase word "INCR" then zaddOptions { flags with incr := true } words
    else (flags, word :: words)

/-- `as_chunks::<2>`: the words two by two. -/
def asChunks : List β → List (β × β)
  | first :: second :: rest => (first, second) :: asChunks rest
  | _ => []

/-- Key, options and pairs, as far as they are checked before the first write. -/
def zaddRequest : List β → Except String (β × ZAddFlags × List (β × β))
  | key :: first :: second :: rest =>
    let (flags, pairs) := zaddOptions eqIgnoreAsciiCase {} (first :: second :: rest)
    if pairs = [] ∨ pairs.length % 2 ≠ 0 then .error "ERR syntax error"
    else .ok (key, flags, asChunks pairs)
  | _ => .error "ERR wrong number of arguments for 'zadd' command"

/-- The text of a reply that ends the command. -/
def RedisObjectResult.failure : RedisObjectResult β → Option String
  | .wrongType => some "WRONGTYPE Operation against a key holding the wrong kind of value"
  | .simple message => if "ERR ".isPrefixOf message then some message else none
  | _ => none

namespace RedisObjectBucket

/-- `zadd_cond` of the store: a string of this name is met only when the key has no object. -/
def zaddCondObject (stringExists : Bool) (b : RedisObjectBucket β σ) (key : β) (flags : ZAddFlags)
    (score : σ) (member : β) : BucketWrite β σ :=
  if !b.containsObject key && stringExists then ⟨.wrongType, false, b⟩
  else b.zaddCond key arith flags score member

variable (stringExists : Bool)

/-- The loop over the pairs. -/
def zaddPairs (key : β) (flags : ZAddFlags) : List (β × β) → ℤ → Option β →
    RedisObjectBucket β σ → Except String (RedisObjectResult β) × RedisObjectBucket β σ
  | [], total, lastBulk, b => (.ok (if flags.incr then .bulk lastBulk else .integer total), b)
  | (score, member) :: rest, total, lastBulk, b =>
    match arith.parseF64Bytes score with
    | none => (.error "ERR value is not a valid float", b)
    | some score =>
      let out := zaddCondObject arith stringExists b key flags score member
      match out.reply.failure, out.reply with
      | some message, _ => (.error message, out.bucket)
      | none, .integer value => zaddPairs key flags rest (total + value) lastBulk out.bucket
      | none, .bulk value => zaddPairs key flags rest total value out.bucket
      | none, _ => zaddPairs key flags rest total lastBulk out.bucket

variable (b : RedisObjectBucket β σ)

def zadd (args : List β) :
    Except String (RedisObjectResult β) × RedisObjectBucket β σ :=
  match zaddRequest eqIgnoreAsciiCase args with
  | .error message => (.error message, b)
  | .ok (key, flags, pairs) => zaddPairs arith stringExists key flags pairs 0 none b

variable (key : β) (flags : ZAddFlags)

variable {b key flags} {b' : RedisObjectBucket β σ} {pair : β × β} (rest : List (β × β)) (total : ℤ)
  (lastBulk : Option β)

end RedisObjectBucket
end Command
end ShardKv
