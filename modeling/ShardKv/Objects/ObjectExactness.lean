import ShardKv.Foundations.History
import ShardKv.Objects.StoreAccess

/-!
# The counters along histories

Every command keeps the counters exact but one: `HSETEX` with a deadline that has
passed raises its flag for a hash that it gives up again, so that a shard counts an
object it does not store. The counters stay exact along a history as long as no such
call occurs.
-/
namespace ShardKv

variable {ι β σ : Type} [DecidableEq ι] [LinearOrder β] [LinearOrder σ]

namespace RedisObjectBucket

variable {b : RedisObjectBucket β σ}

/-- `HSETEX` counts rightly. On a key without a live object at the lock, a deadline that has
passed must be kept from the creation by a string value or by `FXX`. On a live hash, some field
must outlast both readings, or the new fields must pass with it. -/
def SetexSafe (b : RedisObjectBucket β σ) (stringExists : Bool) (key : β) (fields : List (β × β))
    (condition : HashFieldSetCondition) (action : HashFieldSetExpireAction)
    (lockMs callMs : ℕ) : Prop :=
  fields = [] ∨
    if b.containsLiveObject key lockMs then
      b.hasNon key .hash = true ∨ b.hashHasLiveFields key (max lockMs callMs) = true ∨
        condition ≠ .fxX ∧ action.passed callMs = true
    else stringExists = true ∨ condition = .fxX ∨ action.passed callMs = false

/-- Seen from the bucket before the clean-up under the lock, the write is turned away by a string
value or reports rightly exactly when the call is safe. -/
theorem setexSafe_iff (hb : b.WellFormed) (stringExists : Bool) (key : β) (fields : List (β × β))
    (condition : HashFieldSetCondition) (action : HashFieldSetExpireAction) (lockMs callMs : ℕ) :
    b.SetexSafe stringExists key fields condition action lockMs callMs ↔
      (!(b.purgeForWrite key lockMs).2.containsObject key && stringExists) = true ∨
        (b.purgeForWrite key lockMs).2.SetexReports key fields condition action callMs := by
  unfold SetexSafe SetexReports
  rcases purgeForWrite_spec hb key lockMs with ⟨hdead, hfree⟩ | ⟨hlive, hpurged, hstored⟩
  · simp only [hdead, hfree, Bool.not_false, Bool.true_and, Bool.false_eq_true, if_false]
    exact or_left_comm
  · have hkept := removeExpiredHashFields_kept b key lockMs
    have hstill := (hkept.containsObject key).trans hstored
    have hnon : (b.removeExpiredHashFields key lockMs).hasNon key .hash = b.hasNon key .hash := by
      simp [hasNon, hkept.holds]
    rw [hpurged]
    simp only [hlive, hstill, hnon, hashHasLiveFields_removeExpired, Bool.not_true,
      Bool.false_and, Bool.false_eq_true, false_or, if_true]

end RedisObjectBucket

namespace RedisObjectStore

open RedisObjectBucket

/-- The counter of a shard says how many keys its buckets store, whether there is one, and
whether there is none. -/
structure CountExact (store : RedisObjectStore ι β σ) (shardId : ι) : Prop where
  count : (store.shards shardId).objectCount = store.storedKeys shardId
  hasObjects : ∀ i key, ((store.shards shardId).buckets i).containsObject key = true →
    store.shardHasObjects shardId = true
  empty : (store.shards shardId).objectCount = 0 ↔
    ∀ i key, ((store.shards shardId).buckets i).containsObject key = false

variable {store : RedisObjectStore ι β σ}

omit [DecidableEq ι] in
theorem storedKeys_eq_zero_iff {shardId : ι} : store.storedKeys shardId = 0 ↔
    ∀ i key, ((store.shards shardId).buckets i).containsObject key = false := by
  simp only [storedKeys, Finset.sum_eq_zero_iff, Finset.mem_univ, true_imp_iff,
    SlotTable.size_eq_zero_iff, containsObject_eq_false]
  exact forall_congr' fun i => forall_comm

omit [DecidableEq ι] in
theorem Counted.countExact (h : store.Counted) (shardId : ι) : store.CountExact shardId where
  count := h.count shardId
  hasObjects i key hstored := by
    have hcount := h.count shardId
    have hsome : store.storedKeys shardId ≠ 0 := by
      intro hzero
      exact Bool.false_ne_true ((storedKeys_eq_zero_iff.mp hzero i key).symm.trans hstored)
    unfold shardHasObjects shardObjectCountHint
    rw [hcount, max_eq_left (Int.natCast_nonneg _), Int.toNat_natCast]
    exact decide_eq_true hsome
  empty := by
    rw [h.count shardId, ← storedKeys_eq_zero_iff]
    exact Int.natCast_eq_zero

/-- One `HSETEX` on a counted store: when the call is safe the store stays counted, and when the
shard of the key still counts rightly the call was safe. -/
theorem hsetex_counted (h : store.Counted) (env : ObjectSurroundings β)
    (route : EmbeddedKeyRoute ι) (key : β) (fields : List (β × β))
    (condition : HashFieldSetCondition) (action : HashFieldSetExpireAction) (lockMs callMs : ℕ)
    {store' : RedisObjectStore ι β σ}
    (hstore' : (store.objectWriteRouted env route key lockMs fun b =>
      b.hashFieldSetex key fields condition action callMs).2 = store') :
    ((store.bucketAt route).SetexSafe (env.stringExists key) key fields condition action lockMs
        callMs → store'.Counted) ∧
      ((store'.shards route.shardId).objectCount = store'.storedKeys route.shardId →
        (store.bucketAt route).SetexSafe (env.stringExists key) key fields condition action lockMs
          callMs) := by
  have hwell : (store.bucketAt route).WellFormed := h.wellFormed _ _
  have hremoves := purgeForWrite_removes hwell key lockMs
  have hcommit := countRemoval_commits store route fun b => b.purgeForWrite key lockMs
  have hpurged := hcommit.counted h hremoves.wellFormed (by have := hremoves.size; omega)
  have hbucket := hcommit.bucketAt
  rw [setexSafe_iff hwell, ← hbucket]
  generalize hp : (store.countRemoval route fun b => b.purgeForWrite key lockMs).2 = purged
    at hpurged
  cases hfree : !(purged.bucketAt route).containsObject key && env.stringExists key with
  | true =>
    -- the string value turns the write away
    have hsame : store' = purged := by
      rw [← hstore']
      unfold objectWriteRouted
      simp only [hp, hfree, if_true]
    exact ⟨fun _ => hsame ▸ hpurged, fun _ => .inl rfl⟩
  | false =>
    have hcommit := objectWriteRouted_commits env lockMs
      (fun b => b.hashFieldSetex key fields condition action callMs) hp hfree
    rw [hstore'] at hcommit
    obtain ⟨hwell, hsize⟩ := hashFieldSetex_spec (hpurged.wellFormed _ _) key fields condition
      action callMs
    constructor
    · rintro (htrue | hreports)
      · cases htrue
      · exact hcommit.counted hpurged hwell (hsize.mpr hreports)
    · intro hcount
      exact .inr (hsize.mp ((hcommit.count_iff hpurged).mp hcount))

end RedisObjectStore

namespace ObjectCall

open RedisObjectBucket RedisObjectStore
variable (routing : ObjectRouting ι β) (arith : ScoreArithmetic β σ)

def Safe (store : RedisObjectStore ι β σ) (call : ObjectCall β σ) : Prop :=
  match call.op with
  | .write key (.hashFieldSetex fields condition action) =>
    (store.bucketAt (routing.routeKey key)).SetexSafe (call.env.stringExists key) key fields
      condition action (call.clock 0) (call.clock 1)
  | _ => True

variable {routing arith} {store : RedisObjectStore ι β σ} {call : ObjectCall β σ}

/-- All calls but `HSETEX` count the slots that they move. -/
theorem apply_counted (hs : store.Sound) (h : store.Counted) (hsafe : call.Safe routing store) :
    (call.apply routing arith store).Counted := by
  obtain ⟨op, clock, env⟩ := call
  cases op with
  | write key command =>
    cases command with
    | hashFieldSetex => exact (hsetex_counted h env _ _ _ _ _ _ _ rfl).1 hsafe
    | _ => exact (apply_accesses hs fun _ => rfl).counted hs h
  | _ => exact (apply_accesses hs fun _ => rfl).counted hs h

theorem not_countExact_of_not_safe (h : store.Counted) (hsafe : ¬ call.Safe routing store) :
    ¬ ∀ shardId, (call.apply routing arith store).CountExact shardId := by
  obtain ⟨op, clock, env⟩ := call
  cases op with
  | write key command =>
    cases command with
    | hashFieldSetex fields condition action =>
      intro hexact
      exact hsafe ((hsetex_counted h env (routing.routeKey key) key fields condition action _ _
        rfl).2 (hexact _).count)
    | _ => exact absurd trivial hsafe
  | _ => exact absurd trivial hsafe

/-- From the empty store, every shard counts its objects exactly after every call of a history if
and only if each `HSETEX` of the history is safe in the state it meets. -/
theorem objectCount_exact_iff_safeRun (routing : ObjectRouting ι β) (arith : ScoreArithmetic β σ)
    (calls : List (ObjectCall β σ)) :
    (∀ front, front <+: calls → ∀ shardId,
        (front.foldl (apply routing arith) ({} : RedisObjectStore ι β σ)).CountExact shardId) ↔
      SafeRun (apply routing arith) (Safe routing) {} calls := by
  let Inv (store : RedisObjectStore ι β σ) : Prop := store.Sound ∧ store.Counted
  have hgood (store : RedisObjectStore ι β σ) (h : Inv store) : ∀ shardId, store.CountExact shardId :=
    h.2.countExact
  have hstep (store : RedisObjectStore ι β σ) (call : ObjectCall β σ) (h : Inv store)
      (hsafe : call.Safe routing store) : Inv (call.apply routing arith store) :=
    ⟨apply_sound h.1 call, apply_counted h.1 h.2 hsafe⟩
  refine (safeRun_iff_forall_good hgood hstep ?_ calls {} ⟨sound_empty, counted_empty⟩).symm
  exact fun _ _ h hsafe => not_countExact_of_not_safe h.2 hsafe

/-- `HSETEX 7 PXAT 1 FIELDS 1 3 4` at the time 1000. -/
def setexInThePast : ObjectCall ℕ ℕ where
  op := .write 7 (.hashFieldSetex [(3, 4)] .always (.expireAt 1))
  clock _ := 1000

/-- On the empty store the call leaves no key behind and is counted all the same. -/
theorem setexInThePast_miscounted :
    (setexInThePast.apply oneShard wholeScores ({} : RedisObjectStore Unit ℕ ℕ)).storedKeys () = 0 ∧
      ((setexInThePast.apply oneShard wholeScores
        ({} : RedisObjectStore Unit ℕ ℕ)).shards ()).objectCount = 1 ∧
      (setexInThePast.apply oneShard wholeScores
        ({} : RedisObjectStore Unit ℕ ℕ)).shardHasObjects () = true := by
  decide +kernel

end ObjectCall
end ShardKv
