import ShardKv.Foundations.Bytes

/-!
# Rate limiting

A bucket of `CL.THROTTLE` is filled when its key is first named and never again. So it bounds what
is admitted at all, in a period or not, and a request it once refuses is refused for ever.
-/
namespace ShardKv.Cell

variable {β : Type} [DecidableEq β]

structure CellBucket where
  remaining : ℤ
  resetAfter : ℤ

/-- The arguments that all calls have in common, where they are numbers. -/
structure ThrottleLimits where
  maxBurst : Option ℤ
  count : Option ℤ
  period : Option ℤ

structure ThrottleReply where
  limited : Bool
  limit : ℤ
  remaining : ℤ
  retryAfter : ℤ
  resetAfter : ℤ

variable (limits : ThrottleLimits) (buckets : β → Option CellBucket) (key : β)

/-- Burst plus count. -/
def allowed : ℤ := max (limits.maxBurst.getD 0) 0 + max (limits.count.getD 1) 1

def seconds : ℤ := max (limits.period.getD 1) 1

variable (quantity : Option ℤ)

def amount : ℤ := max (quantity.getD 1) 1

/-- The sum is one of 64-bit numbers. -/
def limit : ℤ := (allowed limits).bmod (2 ^ 64)

/-- The bucket of a key, which is full for a new one. -/
def bucketOf : CellBucket := (buckets key).getD ⟨limit limits, seconds limits⟩

/-- `CL.THROTTLE` reads no clock. -/
def throttle : ThrottleReply × (β → Option CellBucket) :=
  let ⟨remaining, resetAfter⟩ := bucketOf limits buckets key
  if remaining < amount quantity then
    (⟨true, limit limits, remaining, resetAfter, resetAfter⟩,
      Function.update buckets key (some ⟨remaining, resetAfter⟩))
  else
    let remaining := remaining - amount quantity
    (⟨false, limit limits, remaining, -1, resetAfter⟩,
      Function.update buckets key (some ⟨remaining, resetAfter⟩))

/-- How much the key is admitted in a window of a history, whose calls come with their times. -/
def admitted (window : ℕ → Bool) : (β → Option CellBucket) → List (ℕ × β × Option ℤ) → ℤ
  | _, [] => 0
  | buckets, (second, other, quantity) :: calls =>
    let out := throttle limits buckets other quantity
    (if other = key ∧ window second ∧ !out.1.limited then amount quantity else 0) +
      admitted window out.2 calls

/-- A refused request within the limit is admitted when it comes again, as late as it may. -/
def Releases : Prop :=
  let out := throttle limits buckets key quantity
  out.1.limited ∧ amount quantity ≤ allowed limits →
    (throttle limits out.2 key quantity).1.limited = false

/-- What is admitted from now on was left in the bucket. -/
theorem admitted_le (window : ℕ → Bool) (calls : List (ℕ × β × Option ℤ)) :
    admitted limits key window buckets calls ≤ max (bucketOf limits buckets key).remaining 0 := by
  induction calls generalizing buckets with
  | nil => exact le_max_right _ _
  | cons call calls ih =>
    obtain ⟨second, other, quantity⟩ := call
    have hlater := ih (throttle limits buckets other quantity).2
    have hamount : 1 ≤ amount quantity := le_max_right _ _
    simp only [admitted, throttle] at hlater ⊢
    by_cases hkey : other = key
    · subst hkey
      split_ifs at hlater ⊢ <;> simp_all [bucketOf] <;> omega
    · split_ifs at hlater ⊢ <;> simp_all [bucketOf, Ne.symm hkey]

/-- No window gets more than burst plus count, but a request is released exactly when the bucket
holds its amount or the limit is below it. -/
theorem throttle_bounded_released_iff (calls : List (ℕ × β × Option ℤ)) (quantity : Option ℤ) :
    (∀ start : ℕ, admitted limits key
      (fun second => start ≤ second ∧ second < start + seconds limits) (fun _ => none) calls ≤
        allowed limits) ∧
    (Releases limits buckets key quantity ↔
      amount quantity ≤ (bucketOf limits buckets key).remaining ∨
        allowed limits < amount quantity) := by
  constructor
  · intro start
    refine (admitted_le ..).trans (max_le ?_ ?_)
    · simp only [bucketOf, Option.getD_none, limit, Int.bmod_def, allowed]
      split_ifs <;> omega
    · unfold allowed
      omega
  · by_cases hfull : (bucketOf limits buckets key).remaining < amount quantity
    · simp_all [Releases, throttle, bucketOf]
    · exact iff_of_true (by simp [Releases, throttle, hfull]) (.inl (not_lt.mp hfull))

/-- One request a second is allowed, but no second one is ever admitted. -/
theorem throttle_never_refills :
    let limits : ThrottleLimits := ⟨some 0, some 1, some 1⟩
    let used := (throttle limits (fun _ => none) 0 (some 1)).2
    ¬Releases limits used 0 (some 1) := by
  unfold Releases
  decide

end ShardKv.Cell
