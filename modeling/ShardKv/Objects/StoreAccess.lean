import ShardKv.Objects.BucketEdits
import ShardKv.Objects.ObjectHistory

/-!
# Store commands as accesses to buckets

Whatever a command does to the object store, it takes one bucket after the other
through an operation, and the shard of the bucket counts what that moves. A property
that the operations keep is therefore kept by the commands, and is only looked at
operation by operation.
-/
namespace ShardKv

variable {ι β σ : Type} [DecidableEq ι] [LinearOrder β] [LinearOrder σ]

namespace RedisObjectStore

open RedisObjectBucket
variable {arith : ScoreArithmetic β σ} {exact : Prop}
  {store store' store'' : RedisObjectStore ι β σ} {route : EmbeddedKeyRoute ι} {key : β}

/-- A bucket goes through an operation. Where counters are looked at, the counter of its shard
moves with its slots. -/
inductive Access (arith : ScoreArithmetic β σ) (exact : Prop)
    (store : RedisObjectStore ι β σ) : RedisObjectStore ι β σ → Prop
  | commit {store' : RedisObjectStore ι β σ} {route : EmbeddedKeyRoute ι} (op : BucketOp β σ)
      {moved : ℤ}
      (hcommit : Commits store route ((store.bucketAt route).run arith op) moved store')
      (hmoved : exact → (((store.bucketAt route).run arith op).slots.size : ℤ) =
        (store.bucketAt route).slots.size + moved) :
      Access arith exact store store'

abbrev Accesses (arith : ScoreArithmetic β σ) (exact : Prop) :
    RedisObjectStore ι β σ → RedisObjectStore ι β σ → Prop :=
  Relation.ReflTransGen (Access arith exact)

/-- All buckets are as operations leave them. -/
def Sound (store : RedisObjectStore ι β σ) : Prop :=
  ∀ shardId i, RedisObjectBucket.Sound ((store.shards shardId).buckets i)

omit [DecidableEq ι] in
theorem sound_empty : ({} : RedisObjectStore ι β σ).Sound :=
  fun _ _ => RedisObjectBucket.sound_empty

omit [DecidableEq ι] in
theorem Sound.wellFormed (hs : store.Sound) (route : EmbeddedKeyRoute ι) :
    (store.bucketAt route).WellFormed :=
  (hs _ _).wellFormed

theorem Access.invariant {P : RedisObjectBucket β σ → Prop} (h : Access arith exact store store')
    (hstep : ∀ b op, P b → P (b.run arith op))
    (hstore : ∀ shardId i, P ((store.shards shardId).buckets i)) (shardId : ι)
    (i : Fin objectBuckets) : P ((store'.shards shardId).buckets i) := by
  obtain @⟨route, op, _, hcommit, -⟩ := h
  by_cases hshard : shardId = route.shardId
  · rw [hshard, hcommit.buckets, Function.update_apply]
    split_ifs
    · exact hstep _ _ (hstore _ _)
    · exact hstore _ _
  · rw [hcommit.others shardId hshard]
    exact hstore _ _

section

variable (h : Accesses arith exact store store')
include h

/-- A property of all buckets is kept that the operations keep. -/
theorem Accesses.invariant {P : RedisObjectBucket β σ → Prop}
    (hstep : ∀ b op, P b → P (b.run arith op))
    (hstore : ∀ shardId i, P ((store.shards shardId).buckets i)) :
    ∀ shardId i, P ((store'.shards shardId).buckets i) := by
  induction h with
  | refl => exact hstore
  | tail _ hlast ih => exact hlast.invariant hstep ih

theorem Accesses.sound (hs : store.Sound) : store'.Sound :=
  h.invariant (fun _ op hb => run_sound hb op) hs

/-- What runs next starts from a sound store again. -/
theorem Accesses.andThen (hs : store.Sound)
    (hnext : store'.Sound → Accesses arith exact store' store'') :
    Accesses arith exact store store'' :=
  h.trans (hnext (h.sound hs))

end

theorem Accesses.counted (h : Accesses arith True store store') (hs : store.Sound)
    (hstore : store.Counted) : store'.Counted := by
  induction h with
  | refl => exact hstore
  | tail hbefore hlast ih =>
    obtain @⟨route, op, _, hcommit, hmoved⟩ := hlast
    have hsound : RedisObjectBucket.Sound ((bucketAt _ route).run arith op) :=
      run_sound (Accesses.sound hbefore hs _ _) op
    exact hcommit.counted ih hsound.wellFormed (hmoved trivial)

omit [DecidableEq ι] in
theorem Accesses.ite {γ : Type} {c : Prop} [Decidable c] {out out' : γ × RedisObjectStore ι β σ}
    (h : Accesses arith exact store out.2) (h' : Accesses arith exact store out'.2) :
    Accesses arith exact store (if c then out else out').2 := by
  split_ifs
  · exact h
  · exact h'

theorem countRemoval_accesses (hs : store.Sound) (op : BucketOp β σ)
    {remove : RedisObjectBucket β σ → Bool × RedisObjectBucket β σ}
    (hrun : ∀ b, (remove b).2 = b.run arith op)
    (hremoves : ∀ b, b.WellFormed → Removes b (remove b)) :
    Accesses arith exact store (store.countRemoval route remove).2 := by
  have hcommit := countRemoval_commits store route remove
  have hsize := (hremoves _ (hs.wellFormed route)).size
  rw [hrun] at hcommit hsize
  exact .single (.commit op hcommit fun _ => by omega)

theorem putBucket_accesses (op : BucketOp β σ) {b : RedisObjectBucket β σ}
    (hrun : b = (store.bucketAt route).run arith op)
    (hsize : exact → b.slots.size = (store.bucketAt route).slots.size) :
    Accesses arith exact store (store.putBucket route b) := by
  subst hrun
  exact .single (.commit op (Commits.putBucket store route _) fun h => by simp [hsize h])

section

variable (hs : store.Sound)
include hs

section

variable (route : EmbeddedKeyRoute ι) (key : β)

theorem deleteExpired_accesses (nowMs : ℕ) :
    Accesses arith exact store (store.countRemoval route fun b => b.deleteExpired key nowMs).2 :=
  countRemoval_accesses hs (.deleteExpired key nowMs) (fun _ => rfl) fun _ hb =>
    deleteExpired_removes hb key nowMs

theorem deleteAny_accesses :
    Accesses arith exact store (store.countRemoval route fun b => b.deleteAny key).2 :=
  countRemoval_accesses hs (.deleteAny key) (fun _ => rfl) fun _ hb => deleteAny_removes hb key

theorem purge_accesses (nowMs : ℕ) :
    Accesses arith exact store (store.countRemoval route fun b => b.purge key nowMs).2 :=
  countRemoval_accesses hs (.purge key nowMs) (fun _ => rfl) fun _ hb =>
    purge_removes hb key nowMs

theorem purgeForWrite_accesses (nowMs : ℕ) :
    Accesses arith exact store (store.countRemoval route fun b => b.purgeForWrite key nowMs).2 :=
  countRemoval_accesses hs (.purgeForWrite key nowMs) (fun _ => rfl) fun _ hb =>
    purgeForWrite_removes hb key nowMs

end

theorem cleanUpForRead_accesses {nowMs : ℕ}
    {remove : RedisObjectBucket β σ → Bool × RedisObjectBucket β σ}
    (h : (store.bucketAt route).cleanUpForRead key nowMs = some remove) :
    Accesses arith exact store (store.countRemoval route remove).2 := by
  unfold cleanUpForRead at h
  split_ifs at h
  · cases h
    exact deleteExpired_accesses hs route key nowMs
  · cases h
    exact countRemoval_accesses hs (.removeExpiredHashIfEmpty key nowMs) (fun _ => rfl) fun _ hb =>
      removeExpiredHashIfEmpty_removes hb key nowMs

theorem objectReadRouted_accesses (env : ObjectSurroundings β) (route : EmbeddedKeyRoute ι)
    (key : β) (nowMs : ℕ) (op : RedisObjectBucket β σ → RedisObjectResult β) :
    Accesses arith exact store (store.objectReadRouted env route key nowMs op).2 := by
  unfold objectReadRouted
  split
  next remove hremove => exact cleanUpForRead_accesses hs hremove
  next => exact .ite .refl .refl

theorem objectLookup_accesses (route : EmbeddedKeyRoute ι) (key : β) (nowMs : ℕ)
    (op : RedisObjectBucket β σ → Option (RedisObjectResult β)) :
    Accesses arith exact store (store.objectLookup route key nowMs op).2 := by
  unfold objectLookup
  split_ifs
  · exact .refl
  · split
    next remove hremove => exact cleanUpForRead_accesses hs hremove
    next => exact .refl

section

variable (env : ObjectSurroundings β) (route : EmbeddedKeyRoute ι) (key : β) (nowMs : ℕ)

theorem objectWriteRouted_accesses (op : BucketOp β σ)
    {write : RedisObjectBucket β σ → BucketWrite β σ}
    (hrun : ∀ b, (write b).bucket = b.run arith op)
    (hwrites : exact → ∀ b, RedisObjectBucket.Sound b → Wrote key b (write b)) :
    Accesses arith exact store (store.objectWriteRouted env route key nowMs write).2 := by
  have hpurged : Accesses arith exact store _ := purgeForWrite_accesses hs route key nowMs
  have hpurgedSound := hpurged.sound hs
  generalize hstore : (store.countRemoval route fun b => b.purgeForWrite key nowMs).2 = store'
    at hpurged hpurgedSound
  cases hfree : (!(store'.bucketAt route).containsObject key && env.stringExists key) with
  | true =>
    simp only [objectWriteRouted, hstore, hfree, if_true]
    exact hpurged
  | false =>
    have hcommit := objectWriteRouted_commits env nowMs write hstore hfree
    rw [hrun] at hcommit
    refine hpurged.tail (.commit op hcommit fun hexact => ?_)
    rw [← hrun]
    exact (hwrites hexact _ (hpurgedSound _ _)).reported.size

theorem objectCreateHashed_accesses (op : BucketOp β σ)
    {existing : RedisObjectBucket β σ → RedisObjectWriteAttempt β σ}
    {create : RedisObjectBucket β σ → RedisObjectResult β × RedisObjectBucket β σ}
    (hrun : ∀ b, orCreate (existing b) (env.stringExists key) create = b.run arith op)
    (hexisting : ∀ b, Attempted key b (existing b))
    (hcreate : ∀ b, b.WellFormed → b.containsObject key = false →
      Reported key b true (create b).2) :
    Accesses arith exact store
      (store.objectCreateHashed env route key nowMs existing create).2 := by
  have hpurged : Accesses arith exact store _ := purgeForWrite_accesses hs route key nowMs
  have hwell := (hpurged.sound hs).wellFormed route
  refine hpurged.trans ?_
  simp only [objectCreateHashed]
  generalize (store.countRemoval route fun b => b.purgeForWrite key nowMs).2 = store' at hwell ⊢
  have hb := hrun (store'.bucketAt route)
  have hattempt := hexisting (store'.bucketAt route)
  cases hout : existing (store'.bucketAt route) with
  | complete reply b =>
    rw [hout] at hb hattempt
    exact putBucket_accesses op hb fun _ => hattempt.size
  | missing b =>
    rw [hout] at hb hattempt
    obtain ⟨hkept, hfree⟩ := hattempt
    dsimp only [orCreate] at hb ⊢
    split_ifs at hb ⊢
    · exact putBucket_accesses op hb fun _ => hkept.size
    · -- the second put writes over the first
      have hput : Commits store' route (create b).2 (0 + 1)
          (((store'.putBucket route b).putBucket route (create b).2).noteCreated
            route.shardId) := by
        refine Commits.noteCreated ⟨?_, ?_, ?_⟩
        · intro shardId hne
          simp [RedisObjectStore.putBucket, hne]
        · simp [RedisObjectStore.putBucket]
        · simp [RedisObjectStore.putBucket]
      have hsize := (hcreate b (hkept.wellFormed hwell) hfree).size
      rw [hfree, hkept.size] at hsize
      rw [hb] at hput hsize ⊢
      exact .single (.commit op hput fun _ => hsize)

end
end

section Commands

variable (hs : store.Sound) (env : ObjectSurroundings β) (routing : ObjectRouting ι β)

include hs

theorem deleteRoutedThen_accesses (route : EmbeddedKeyRoute ι) (key : β) :
    Accesses arith exact store (store.deleteRoutedThen route key).2 :=
  .ite (deleteAny_accesses hs route key) .refl

theorem deletePinnedVectorValueIfDistinct_accesses (primary : EmbeddedKeyRoute ι) (key : β) :
    Accesses arith exact store
      (store.deletePinnedVectorValueIfDistinct env routing primary key).2 :=
  .ite .refl (deleteRoutedThen_accesses hs _ key)

theorem delete_accesses (key : β) :
    Accesses arith exact store (store.delete env routing key).2 := by
  have hdeleted : Accesses arith exact store _ :=
    deleteRoutedThen_accesses hs (routing.routeKey key) key
  exact .ite .refl (.ite hdeleted (hdeleted.andThen hs fun hs =>
    deletePinnedVectorValueIfDistinct_accesses hs env routing _ key))

theorem setValueBytesRouted_accesses (route : EmbeddedKeyRoute ι) (key : β) :
    Accesses arith exact store (store.setValueBytesRouted env routing route key) := by
  unfold setValueBytesRouted
  split_ifs
  · exact .refl
  · exact (deletePinnedVectorValueIfDistinct_accesses hs env routing route key).andThen hs fun hs =>
      deleteRoutedThen_accesses hs route key

theorem setPinnedVectorValue_accesses (key : β) :
    Accesses arith exact store (store.setPinnedVectorValue env routing key).2 := by
  unfold setPinnedVectorValue
  dsimp only
  split_ifs
  · exact .refl
  · exact (deleteRoutedThen_accesses hs (routing.routeKey key) key).andThen hs fun hs =>
      setValueBytesRouted_accesses hs env routing _ key
  · exact setValueBytesRouted_accesses hs env routing _ key

theorem setSliceKeepTtl_accesses (key : β) (nowMs : ℕ) :
    Accesses arith exact store (store.setSliceKeepTtl env routing key nowMs).2 :=
  .ite .refl ((purge_accesses hs (routing.routeKey key) key nowMs).andThen hs fun hs =>
    deleteAny_accesses hs _ key)

theorem keyExists_accesses (key : β) (nowMs liveNowMs : ℕ) :
    Accesses arith exact store (store.keyExists env routing key nowMs liveNowMs).2 :=
  .ite .refl (.ite (deleteExpired_accesses hs _ key nowMs) (.ite .refl .refl))

/-- A bucket operation behind a clean-up that took nothing, and so is not cleaning up again. -/
theorem purge_then_accesses (route : EmbeddedKeyRoute ι) (key : β) (nowMs : ℕ) (op : BucketOp β σ)
    (hsame : ∀ b, b.WellFormed → b.objectIsExpired key nowMs = false →
      (b.removeExpiredHashIfEmpty key nowMs).1 = false → SameSize b (b.run arith op)) :
    let out := store.countRemoval route fun b => b.purge key nowMs
    Accesses arith exact store
      (if out.1 then out.2 else out.2.putBucket route ((out.2.bucketAt route).run arith op)) := by
  have hpurged : Accesses arith exact store _ := purge_accesses hs route key nowMs
  dsimp only
  split_ifs with htaken
  · exact hpurged
  · have hbucket := (countRemoval_commits store route fun b => b.purge key nowMs).bucketAt
    obtain ⟨hexpired, hempty⟩ := purge_again (hs.wellFormed route) (eq_false_of_ne_true htaken)
    rw [← hbucket] at hexpired hempty
    refine hpurged.trans (putBucket_accesses op rfl fun _ => ?_)
    exact (hsame _ ((hpurged.sound hs).wellFormed route) hexpired hempty).size

theorem pttlMillis_accesses (key : β) (nowMs : ℕ) :
    Accesses arith exact store (store.pttlMillis routing key nowMs).2 := by
  unfold pttlMillis
  dsimp only
  split_ifs
  · exact .refl
  · have hthen : Accesses arith exact store _ :=
      purge_then_accesses hs (routing.routeKey key) key nowMs (.ttlMillis key nowMs)
        fun b hb hexpired hempty => ttlMillis_sameSize hb hexpired hempty
    generalize store.countRemoval (routing.routeKey key) _ = out at hthen ⊢
    obtain ⟨_ | _, purged⟩ := out <;> exact hthen

theorem onDeadline_accesses (key : β) (nowMs : ℕ) (op : BucketOp β σ)
    {write : RedisObjectBucket β σ → Bool × RedisObjectBucket β σ}
    (hrun : ∀ b, (write b).2 = b.run arith op)
    (hsame : ∀ b, b.WellFormed → b.objectIsExpired key nowMs = false →
      SameSize b (write b).2) :
    Accesses arith exact store (store.onDeadline routing key nowMs write).2 := by
  unfold onDeadline
  dsimp only
  split_ifs
  · exact .refl
  · have hthen : Accesses arith exact store _ :=
      purge_then_accesses hs (routing.routeKey key) key nowMs op
        fun b hb hexpired _ => hrun b ▸ hsame b hb hexpired
    simp only [← hrun] at hthen
    generalize store.countRemoval (routing.routeKey key) _ = out at hthen ⊢
    obtain ⟨_ | _, purged⟩ := out
    · exact .ite hthen (.ite hthen hthen)
    · exact hthen

theorem pushListExistingHashed_accesses (route : EmbeddedKeyRoute ι) (key : β) (values : List β)
    (front : Bool) (nowMs writeNowMs : ℕ) :
    Accesses arith exact store
      (store.pushListExistingHashed env route key values front nowMs writeNowMs).2 := by
  refine .ite .refl (.ite .refl (.ite (deleteExpired_accesses hs route key nowMs)
    (.ite ?_ (.ite .refl .refl))))
  exact objectWriteRouted_accesses hs env route key writeNowMs (.pushListExisting key values front)
    (fun _ => rfl) fun _ _ hb => pushListExistingHashed_writes hb key values front

theorem cloneObjectValue_accesses (key : β) (nowMs cloneNowMs fieldNowMs : ℕ) :
    Accesses arith exact store
      (store.cloneObjectValue routing key nowMs cloneNowMs fieldNowMs).2 :=
  .ite (deleteExpired_accesses hs _ key nowMs) .refl

theorem setObjectValueExpireAt_accesses (key : β) (value : RedisObjectValue β σ)
    (expireAtMs : Option ℕ) (nowMs : ℕ) :
    Accesses arith exact store
      (store.setObjectValueExpireAt env routing key value expireAtMs nowMs) := by
  have hpinned : Accesses arith exact store _ :=
    deletePinnedVectorValueIfDistinct_accesses hs env routing (routing.routeKey key) key
  have hwell := (hpinned.sound hs).wellFormed (routing.routeKey key)
  refine hpinned.trans ?_
  unfold setObjectValueExpireAt
  dsimp only
  generalize routing.routeKey key = route at hwell ⊢
  generalize (store.deletePinnedVectorValueIfDistinct env routing route key).2 = store' at hwell ⊢
  obtain ⟨hflag, hwell', hsize, hlive⟩ := insertValue_spec hwell key value
  set out := (store'.bucketAt route).insertValue key value
  have hput := Commits.putBucket store' route out.2
  -- the new slot is counted exactly when the key was free
  have hcommit : Commits store' route out.2 (!(store'.bucketAt route).containsObject key).toNat
      (if (out.1 && !(store'.bucketAt route).containsObject key) = true then
        (store'.putBucket route out.2).noteCreated route.shardId
      else store'.putBucket route out.2) := by
    rw [hflag]
    cases (store'.bucketAt route).containsObject key
    · exact hput.noteCreated
    · exact hput
  have hstored : Accesses arith exact store' _ :=
    .single (.commit (.insertValue key value) hcommit fun _ => by
      change (out.2.slots.size : ℤ) = _
      rw [hsize]
      push_cast
      rfl)
  cases expireAtMs with
  | none => exact hstored
  | some deadline =>
    refine hstored.trans (putBucket_accesses (.expire key deadline nowMs) ?_ fun _ => ?_)
    · rw [hcommit.bucketAt]
      rfl
    · rw [hcommit.bucketAt]
      exact (expire_sameSize hwell' (hlive nowMs) deadline).size

theorem setObjectValue_accesses (key : β) (value : RedisObjectValue β σ) (ttlMs : Option ℕ)
    (nowMs : ℕ) :
    Accesses arith exact store (store.setObjectValue env routing key value ttlMs nowMs) := by
  unfold setObjectValue
  split <;> exact setObjectValueExpireAt_accesses hs env routing key value _ _

theorem renameKey_accesses (clock : ℕ → ℕ) (source dest : β) (nx : Bool) :
    Accesses arith exact store (store.renameKey env routing clock source dest nx).2 := by
  have hexists (key : β) : Accesses arith exact store _ :=
    keyExists_accesses hs env routing key (clock 0) (clock 1)
  have htaken : Accesses arith exact store
      (if nx then store.keyExists env routing dest (clock 0) (clock 1) else (false, store)).2 :=
    .ite (hexists dest) .refl
  unfold renameKey
  generalize (if nx then store.keyExists env routing dest (clock 0) (clock 1)
    else (false, store)) = taken at htaken ⊢
  have httl : Accesses arith exact store _ :=
    htaken.andThen hs fun hs => pttlMillis_accesses hs routing source (clock 2)
  dsimp only
  generalize taken.2.pttlMillis routing source (clock 2) = ttl at httl ⊢
  have hleft := httl.sound hs
  refine .ite (hexists source) (.ite htaken (.ite (.ite httl (httl.trans ?_))
    (.ite (httl.trans ?_) (httl.trans ?_))))
  · exact (delete_accesses hleft env routing dest).andThen hleft
      fun hs => (setPinnedVectorValue_accesses hs env routing dest).andThen hs
        fun hs => delete_accesses hs env routing source
  · exact (setValueBytesRouted_accesses hleft env routing (routing.routeKey dest) dest).andThen
      hleft fun hs => delete_accesses hs env routing source
  · have hcloned : Accesses arith exact ttl.2 _ :=
      cloneObjectValue_accesses hleft routing source (clock 3) (clock 4) (clock 5)
    generalize ttl.2.cloneObjectValue routing source (clock 3) (clock 4) (clock 5) = cloned
      at hcloned ⊢
    have hstill := hcloned.sound hleft
    refine hcloned.trans ?_
    obtain ⟨_ | value, store'⟩ := cloned
    · exact .refl
    · exact (delete_accesses hstill env routing dest).andThen hstill fun hs =>
        (setObjectValue_accesses hs env routing dest value _ (clock 6)).andThen hs
          fun hs => delete_accesses hs env routing source

theorem restoreKey_accesses (clock : ℕ → ℕ) (key : β) (ttl : ℕ) (replace absttl : Bool)
    (payload : Option (DumpRestoreValue β σ)) :
    Accesses arith exact store
      (store.restoreKey env routing clock key ttl replace absttl payload).2 := by
  have hpresent : Accesses arith exact store (if replace then (false, store)
      else store.keyExists env routing key (clock 0) (clock 1)).2 :=
    .ite .refl (keyExists_accesses hs env routing key _ _)
  unfold restoreKey
  generalize (if replace then (false, store)
    else store.keyExists env routing key (clock 0) (clock 1)) = present at hpresent ⊢
  have hleft := hpresent.sound hs
  refine .ite hpresent (hpresent.trans ?_)
  rcases payload with _ | value
  · exact .refl
  · refine Accesses.ite ?_ ?_
    · split_ifs
      · exact delete_accesses hleft env routing key
      · exact .refl
    · rcases value with _ | valid | value
      · exact setValueBytesRouted_accesses hleft env routing _ key
      · exact .ite .refl (setPinnedVectorValue_accesses hleft env routing key)
      · exact setObjectValue_accesses hleft env routing key value _ _

end Commands
end RedisObjectStore

namespace ObjectCall

open RedisObjectStore RedisObjectBucket
variable {arith : ScoreArithmetic β σ} {routing : ObjectRouting ι β}

/-- The one call whose flag can be wrong. -/
def isSetex (call : ObjectCall β σ) : Bool :=
  match call.op with
  | .write _ command => command.isSetex
  | _ => false

/-- Every call is a sequence of accesses, and counts what they move unless it is an `HSETEX`. -/
theorem apply_accesses {exact : Prop} {store : RedisObjectStore ι β σ} {call : ObjectCall β σ}
    (hs : store.Sound) (hexact : exact → call.isSetex = false) :
    Accesses arith exact store (call.apply routing arith store) := by
  obtain ⟨op, clock, env⟩ := call
  cases op with
  | read => exact objectReadRouted_accesses hs env ..
  | lookup => exact objectLookup_accesses hs ..
  | write key command =>
    exact objectWriteRouted_accesses hs env _ key _ (.write key command (clock 1) (clock 2))
      (fun _ => rfl) fun h _ hb => objectWrite_writes hb key _ _ (hexact h)
  | create key command =>
    refine objectCreateHashed_accesses hs env _ key _ (.create key command (clock 1) _)
      (fun _ => rfl) (fun b => ?_) fun b hb hfree => ?_
    · cases command with
      | hset field value => exact hsetExistingOrWrongtypeHashed_attempted b key field value _
      | pushList values front => exact pushListExistingOrWrongtypeHashed_attempted b key values front
      | sadd members => exact saddExistingOrWrongtypeHashed_attempted b key members
      | zadd => exact editExisting_attempted b key _
    · cases command <;> exact .created hb hfree _
  | pushListExisting => exact pushListExistingHashed_accesses hs env ..
  | «exists» => exact keyExists_accesses hs env routing ..
  | pttl key => exact pttlMillis_accesses hs routing key _
  | persist key =>
    exact .ite .refl (onDeadline_accesses hs routing key _ (.persist key _)
      (fun _ => rfl) fun _ hb hexpired => persist_sameSize hb hexpired)
  | expire key expireAtMs =>
    exact .ite .refl (onDeadline_accesses hs routing key _ (.expire key expireAtMs _)
      (fun _ => rfl) fun _ hb hexpired => expire_sameSize hb hexpired expireAtMs)
  | metadata => exact .ite .refl (.ite (deleteExpired_accesses hs ..) .refl)
  | delete key => exact delete_accesses hs env routing key
  | setString key => exact setValueBytesRouted_accesses hs env routing _ key
  | setStringKeepTtl key => exact setSliceKeepTtl_accesses hs env routing key _
  | setVector key => exact setPinnedVectorValue_accesses hs env routing key
  | setObject => exact setObjectValue_accesses hs env routing ..
  | clone => exact cloneObjectValue_accesses hs routing ..
  | rename => exact renameKey_accesses hs env routing clock ..
  | restore => exact restoreKey_accesses hs env routing clock ..

theorem apply_sound {store : RedisObjectStore ι β σ} (hs : store.Sound) (call : ObjectCall β σ) :
    (call.apply routing arith store).Sound := by
  have haccesses : Accesses arith False store (call.apply routing arith store) :=
    apply_accesses hs False.elim
  exact haccesses.sound hs

end ObjectCall
end ShardKv
