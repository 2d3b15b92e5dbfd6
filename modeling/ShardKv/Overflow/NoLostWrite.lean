import ShardKv.Overflow.OverflowReaders

/-!
# No lost write

`Sound` is what holds of a key in every state of a run whose steps are safe: its
generations can be traced, the latest set is guarded, and every `get` that is
finished has given a right answer. One step of a key keeps it, so a step of the
store keeps it for all keys, and a whole run does.
-/
namespace ShardKv

variable {κ ι β : Type}

namespace OverflowKey

/-- The step has left alone what is owed, and the readers. -/
structure Aside (s s' : OverflowKey ι β) : Prop where
  latest : s'.latest = s.latest
  readers : s'.readers = s.readers

section Frame

variable (s : OverflowKey ι β) (nowMs : ℕ) (shard : ι)

theorem setForget_aside : Aside s s.setForget := by
  unfold setForget
  split <;> exact ⟨rfl, rfl⟩

theorem setEnqueue_aside : Aside s s.setEnqueue := by
  unfold setEnqueue
  split <;> exact ⟨rfl, rfl⟩

theorem deleteBegin_aside (generation : ℕ) : Aside s (s.deleteBegin nowMs shard generation) := by
  unfold deleteBegin
  split <;> exact ⟨rfl, rfl⟩

theorem applyDeleteCompletion_aside (generation : ℕ) (succeeded : Bool) :
    Aside s (s.applyDeleteCompletion generation succeeded) := by
  unfold applyDeleteCompletion
  split
  · exact ⟨rfl, rfl⟩
  · split_ifs
    · exact ⟨rfl, rfl⟩
    · exact ⟨rfl, rfl⟩
    · split <;> exact ⟨rfl, rfl⟩

theorem deleteEnd_aside : Aside s s.deleteEnd := by
  unfold deleteEnd
  split
  next generation _ succeeded _ =>
    have h := s.applyDeleteCompletion_aside generation succeeded
    exact ⟨h.latest, h.readers⟩
  · exact ⟨rfl, rfl⟩

theorem complete_aside (index : ℕ) : Aside s (s.complete shard index) := by
  unfold complete
  split_ifs
  · exact ⟨rfl, rfl⟩
  · dsimp only
    split
    · unfold applyPutCompletion
      split_ifs
      · exact ⟨rfl, rfl⟩
      · exact ⟨rfl, rfl⟩
      · split <;> exact ⟨rfl, rfl⟩
    next generation succeeded _ =>
      have h := applyDeleteCompletion_aside
        { s with completions := s.completions.eraseIdx index } generation succeeded
      exact ⟨h.latest, h.readers⟩
    · exact ⟨rfl, rfl⟩

theorem noteRetry_aside : Aside s s.noteRetry := by
  unfold noteRetry
  split
  · split_ifs <;> exact ⟨rfl, rfl⟩
  · exact ⟨rfl, rfl⟩

theorem retry_aside (index : ℕ) : Aside s (s.retry index) := by
  unfold retry enqueuePendingRetry
  split_ifs
  · exact ⟨rfl, rfl⟩
  · split
    · split
      · exact ⟨rfl, rfl⟩
      · split_ifs
        · split <;> exact ⟨rfl, rfl⟩
        · exact ⟨rfl, rfl⟩
    · exact ⟨rfl, rfl⟩

theorem noteExpired_aside : Aside s (s.noteExpired nowMs) := by
  unfold noteExpired
  split
  · split_ifs <;> exact ⟨rfl, rfl⟩
  · exact ⟨rfl, rfl⟩

theorem cleanup_aside [DecidableEq ι] [DecidableEq β] (next index : ℕ) :
    Aside s (s.cleanup shard next index).2 := by
  unfold cleanup cleanupExpired
  split_ifs
  · exact ⟨rfl, rfl⟩
  · split
    · split_ifs
      · exact ⟨rfl, rfl⟩
      · split
        · split_ifs <;> exact ⟨rfl, rfl⟩
        · exact ⟨rfl, rfl⟩
    · exact ⟨rfl, rfl⟩

theorem evict_aside [DecidableEq ι] : Aside s (s.evict nowMs shard) := by
  unfold evict
  split_ifs <;> exact ⟨rfl, rfl⟩

theorem purge_aside : Aside s (s.purge nowMs) := by
  unfold purge
  split_ifs <;> exact ⟨rfl, rfl⟩

theorem readEnd_latest [DecidableEq ι] (forgetRemoteMisses : Bool) (reader : ℕ) (admitted : Bool) :
    (s.readEnd nowMs forgetRemoteMisses reader admitted).latest = s.latest := by
  unfold readEnd
  split
  · rfl
  · split
    · split
      · rfl
      · split
        · rfl
        · split
          · split_ifs <;> rfl
          · dsimp only
            split_ifs <;> rfl
    · rfl

end Frame

/-- The latest set is guarded, and every finished `get` was answered rightly. -/
structure Served (options : KvOverflowOptions) (nowMs : ℕ) (s : OverflowKey ι β) : Prop where
  guards : ∀ entry, s.latest = some entry → Guards nowMs entry s
  answered : ∀ reader, (s.readers reader).Answered options.fetchOnMiss

structure Sound (options : KvOverflowOptions) (nowMs next : ℕ) (s : OverflowKey ι β) : Prop
    extends Served options nowMs s where
  traced : ∃ origin, Traced origin next s

theorem sound_empty (options : KvOverflowOptions) (nowMs : ℕ) :
    Sound options nowMs 1 ({} : OverflowKey ι β) where
  guards := by simp
  answered := fun _ => trivial
  traced := ⟨_, traced_empty⟩

variable {options : KvOverflowOptions} {nowMs next : ℕ} {s s' : OverflowKey ι β}

theorem Served.aside (h : Served options nowMs s) (hs' : Aside s s')
    (hguards : ∀ entry, s.latest = some entry → Guards nowMs entry s → Guards nowMs entry s') :
    Served options nowMs s' where
  guards entry hentry := by
    rw [hs'.latest] at hentry
    exact hguards entry hentry (h.guards entry hentry)
  answered := by rw [hs'.readers]; exact h.answered

theorem Served.reading (h : Served options nowMs s) (hlatest : s'.latest = s.latest)
    (hguards : ∀ entry, Guards nowMs entry s → Guards nowMs entry s')
    (hanswered : ∀ reader, (s'.readers reader).Answered options.fetchOnMiss) :
    Served options nowMs s' where
  guards := by
    rw [hlatest]
    exact fun entry hentry => hguards entry (h.guards entry hentry)
  answered := hanswered

theorem Served.step {reader : ℕ} (h : Served options nowMs s)
    (hstep : s.ReaderStep nowMs reader options.fetchOnMiss s') : Served options nowMs s' := by
  refine h.reading ?_ (fun _ hguards => hstep.guards hguards) (hstep.answered h.guards h.answered)
  obtain ⟨_, -, rfl⟩ := hstep
  rfl

theorem Sound.setResident (h : Sound options nowMs next s) (value : β) (governance : Option β)
    (ttlMs : Option ℕ)
    (hsafe : ∀ pending, s.pending = some pending → pending.queued = true ∧
      ∀ retryOnFailure, pending.mutation ≠ .delete retryOnFailure) :
    Served options nowMs (s.setResident nowMs next value governance ttlMs) := by
  obtain ⟨origin, ht⟩ := h.traced
  cases hclient : s.client with
  | idle =>
    have hanswered : ∀ reader,
        ((s.setResident nowMs next value governance ttlMs).readers reader).Answered
          options.fetchOnMiss := by
      simpa [OverflowKey.setResident, hclient] using h.answered
    refine ⟨?_, hanswered⟩
    intro entry hentry
    -- a set that is expired on arrival is owed to no one
    by_cases hlive : (setEntry nowMs next value governance ttlMs).written.isExpired nowMs = true
    · simp [OverflowKey.setResident, hclient, hlive] at hentry
    · obtain rfl : setEntry nowMs next value governance ttlMs = entry := by
        simpa [OverflowKey.setResident, hclient, hlive] using hentry
      exact setResident_guards ht hclient hsafe (by simpa using hlive)
  | setting held forgotten | deleting own present outcome =>
    simpa [OverflowKey.setResident, hclient] using h.toServed

theorem latest_of_execute {succeeded : Bool} {entry : OverflowEntry β}
    (h : (s.execute succeeded).latest = some entry) : s.latest = some entry := by
  unfold execute at h
  split at h
  · exact h
  · exact h
  · cases succeeded with
    | true => simp at h
    | false => exact h
  · exact h

theorem Sound.execute (h : Sound options nowMs next s) (succeeded : Bool) :
    Served options nowMs (s.execute succeeded) := by
  obtain ⟨origin, ht⟩ := h.traced
  constructor
  · intro entry hentry
    have hlatest := latest_of_execute hentry
    exact execute_guards (h.guards entry hlatest) ht hlatest succeeded hentry
  · have hreaders : (s.execute succeeded).readers = s.readers := by
      unfold OverflowKey.execute
      split <;> rfl
    rw [hreaders]
    exact h.answered

theorem observe_sound (h : Sound options nowMs next s) (nowMs' : ℕ) :
    Sound options nowMs' next (s.observe nowMs') := by
  refine ⟨⟨?_, h.answered⟩, ?_⟩
  · intro entry hentry
    obtain ⟨hlatest, hlive⟩ := Option.filter_eq_some_iff.mp hentry
    have hguards := h.guards entry hlatest
    exact
      { hguards with
        live := by simpa using hlive
        mirrored := fun remote hremote hgeneration =>
          { hguards.mirrored remote hremote hgeneration with } }
  · obtain ⟨origin, ht⟩ := h.traced
    exact ⟨origin, observe_traced ht⟩

theorem le_step_fst [DecidableEq ι] [DecidableEq β] (shard : ι) (action : KeyAction β) :
    next ≤ (s.step options shard nowMs next action).1 := by
  cases action with
  | setResident | deleteBegin => exact Nat.le_succ next
  | cleanup =>
    simp only [step, cleanup, cleanupExpired]
    split_ifs
    · exact le_rfl
    · split
      · split_ifs
        · exact le_rfl
        · split
          · split_ifs <;> exact le_rfl
          · exact Nat.le_succ next
      · exact le_rfl
  | _ => exact le_rfl

end OverflowKey

namespace KvOverflowStore

open OverflowKey
variable [DecidableEq ι] [DecidableEq β] {options : KvOverflowOptions} {shardOf : κ → ι}
  {store : KvOverflowStore κ ι β}

theorem step_served {key : κ} {action : KeyAction β}
    (h : Sound options store.nowMs (store.sequence (shardOf key)) (store.keys key))
    (hsafe : store.Safe shardOf (.key key action)) :
    Served options store.nowMs ((store.keys key).step options (shardOf key) store.nowMs
      (store.sequence (shardOf key)) action).2 := by
  obtain ⟨origin, ht⟩ := h.traced
  cases action with
  | setResident value governance ttlMs admitted =>
    cases admitted with
    | false => exact h.toServed
    | true => exact h.setResident value governance ttlMs hsafe
  | setForget => exact h.aside (setForget_aside _) fun _ _ => setForget_guards
  | setEnqueue => exact h.aside (setEnqueue_aside _) fun _ _ => setEnqueue_guards
  | deleteBegin =>
    exact h.aside (deleteBegin_aside _ _ _ _) fun _ _ hguards => deleteBegin_guards hguards _ _
  | deleteEnd => exact h.aside (deleteEnd_aside _) fun _ _ => deleteEnd_guards
  | execute => exact h.execute _
  | complete =>
    exact h.aside (complete_aside ..) fun _ hentry hguards => complete_guards hguards ht hentry ..
  | noteRetry => exact h.aside (noteRetry_aside _) fun _ _ => noteRetry_guards
  | retry => exact h.aside (retry_aside ..) fun _ hentry hguards => retry_guards hguards ht hentry _
  | noteExpired => exact h.aside (noteExpired_aside _ _) fun _ _ => noteExpired_guards
  | cleanup =>
    refine h.aside (cleanup_aside _ _ _ _) fun _ _ hguards => ?_
    -- metadata of a value that is owed never reaches its deadline
    simpa only [step, cleanup_eq hguards] using hguards
  | evict => exact h.aside (evict_aside _ _ _) fun _ _ hguards => evict_guards hguards _ hsafe
  | purge =>
    refine h.aside (purge_aside _ _) fun _ _ hguards => ?_
    simpa only [step, purge_eq hguards] using hguards
  | readBegin => exact h.step (readBegin_step ..)
  | readExpect => exact h.step (readExpect_step ..)
  | readCheck => exact h.step (readCheck_step ..)
  | readFetch => exact h.step (readFetch_step ..)
  | readEnd reader admitted =>
    exact h.reading (readEnd_latest _ _ _ _ _) (fun _ hguards => readEnd_guards hguards _ _ _)
      (readEnd_answered h.guards h.answered _ reader admitted)

/-- Every key is sound. -/
def AllSound (options : KvOverflowOptions) (shardOf : κ → ι) (store : KvOverflowStore κ ι β) :
    Prop :=
  ∀ key, Sound options store.nowMs (store.sequence (shardOf key)) (store.keys key)

omit [DecidableEq ι] [DecidableEq β] in
theorem AllSound.noLostWrite (h : AllSound options shardOf store) : NoLostWrite options store := by
  constructor
  · intro key entry hlatest
    have hguards := (h key).guards entry hlatest
    cases hresident : (store.keys key).resident with
    | some => exact .inl (congrArg some (hguards.resident _ hresident))
    | none =>
      obtain ⟨remote, hremote, hgeneration⟩ := hguards.somewhere hresident
      exact .inr ⟨remote, hremote, hgeneration, (hguards.mirrored remote hremote hgeneration).node⟩
  · intro key reader entry result hfinished hopen
    have hanswered := (h key).answered reader
    rw [hfinished] at hanswered
    exact hanswered rfl hopen

variable [DecidableEq κ]

/-- The clock may go either way; what it finds expired is owed no longer. A step on one key can
only raise the generations that the other keys of its shard will draw. -/
theorem AllSound.apply (h : AllSound options shardOf store) {action : OverflowAction κ β}
    (hsafe : store.Safe shardOf action) :
    AllSound options shardOf (store.apply options shardOf action) := by
  intro other
  cases action with
  | tick => exact observe_sound (h other) _
  | key key action =>
    simp only [KvOverflowStore.apply]
    obtain ⟨origin, ht⟩ := (h other).traced
    by_cases hsame : other = key
    · subst hsame
      simp only [Function.update_self]
      exact ⟨step_served (h other) hsafe, step_traced ht options (shardOf other) action⟩
    · rw [Function.update_of_ne hsame]
      refine ⟨(h other).toServed, origin, ht.mono ?_⟩
      by_cases hshard : shardOf other = shardOf key
      · rw [hshard, Function.update_self]
        exact le_step_fst (shardOf key) action
      · rw [Function.update_of_ne hshard]

/-- In a run of safe steps, from an empty store on, no state has lost a write and no `get` has
been answered otherwise than with the latest set. -/
theorem noLostWrite_of_safeRun (options : KvOverflowOptions) (shardOf : κ → ι)
    (actions : List (OverflowAction κ β))
    (hrun : SafeRun (apply options shardOf) (Safe shardOf) {} actions) :
    ∀ front, front <+: actions → NoLostWrite options (front.foldl (apply options shardOf) {}) := by
  intro front hfront
  have hinit : AllSound options shardOf ({} : KvOverflowStore κ ι β) :=
    fun _ => sound_empty options 0
  have hsound :=
    SafeRun.invariant (fun _ _ h hsafe => h.apply hsafe) front _ hinit (hrun.front hfront)
  exact hsound.noLostWrite

/-- A set, its put, an eviction and a `get` that brings the value back. -/
def evictedAndReadBack : List (OverflowAction Unit ℕ) :=
  [.setResident 1 none none true, .setForget, .setEnqueue, .execute true, .complete 0, .evict,
    .readBegin 0, .readExpect 0, .readCheck 0, .readFetch 0 true, .readEnd 0 true].map (.key ())

theorem noLostWrite_evictedAndReadBack :
    SafeRun (apply {} id) (Safe id) ({} : KvOverflowStore Unit Unit ℕ) evictedAndReadBack ∧
      NoLostWrite {} (evictedAndReadBack.foldl (apply {} id) ({} : KvOverflowStore Unit Unit ℕ)) := by
  have hrun : SafeRun (apply {} id) (Safe id) ({} : KvOverflowStore Unit Unit ℕ)
      evictedAndReadBack := by
    simp [SafeRun, evictedAndReadBack, Safe, apply, step, OverflowKey.setResident, setForget,
      setEnqueue, OverflowKey.execute, complete, gateFree, applyPutCompletion,
      overflowGenerationMatches, setEntry]
  exact ⟨hrun, noLostWrite_of_safeRun {} id evictedAndReadBack hrun _ List.prefix_rfl⟩

/-- A put fails and becomes pending; a second set does not replace it, and its retry comes to the
node after the put of the second set. Maintenance then trusts the metadata of the second set. -/
def staleRetry : List (OverflowAction Unit ℕ) :=
  [.setResident 1 none none true, .setForget, .setEnqueue, .execute false, .complete 0, .noteRetry,
    .setResident 2 none none true, .setForget, .setEnqueue, .retry 0, .execute true, .execute true,
    .complete 0, .evict,
    .readBegin 0, .readExpect 0, .readCheck 0, .readFetch 0 true, .readEnd 0 true].map (.key ())

theorem staleRetry_loses_write :
    ((staleRetry.foldl (apply {} id) ({} : KvOverflowStore Unit Unit ℕ)).keys ()).readers 0 =
        .finished (some ⟨⟨2, none, none⟩, 2⟩) (some ⟨⟨2, none, none⟩, 2⟩) (some 1) ∧
      ¬ NoLostWrite {} (staleRetry.foldl (apply {} id) ({} : KvOverflowStore Unit Unit ℕ)) := by
  have hread : ((staleRetry.foldl (apply {} id) ({} : KvOverflowStore Unit Unit ℕ)).keys ()).readers 0
      = .finished (some ⟨⟨2, none, none⟩, 2⟩) (some ⟨⟨2, none, none⟩, 2⟩) (some 1) := by
    decide +kernel
  refine ⟨hread, ?_⟩
  intro h
  simpa using h.read () 0 _ _ hread rfl

-- The clean-up delete of an expired value is queued when a new set comes; its completion removes
-- the new value from the primary.
example :
    let run : List (OverflowAction Unit ℕ) :=
      [.setResident 1 none (some 5) true, .setForget, .setEnqueue, .execute true,
        .complete 0].map (.key ()) ++ .tick 9 ::
      [.noteExpired, .cleanup 0, .setResident 2 none none true, .setForget, .setEnqueue,
        .execute true, .complete 0].map (.key ())
    let s := (run.foldl (apply {} id) ({} : KvOverflowStore Unit Unit ℕ)).keys ()
    s.latest = some ⟨⟨2, none, none⟩, 3⟩ ∧ s.resident = none ∧ s.remote = none := by
  decide +kernel

-- An eviction between the write into the primary and the removal of the old metadata.
example :
    let run : List (OverflowAction Unit ℕ) :=
      [.setResident 1 none none true, .setForget, .setEnqueue, .execute true, .complete 0,
        .setResident 2 none none true, .evict, .setForget, .setEnqueue, .execute true,
        .complete 0].map (.key ())
    let s := (run.foldl (apply {} id) ({} : KvOverflowStore Unit Unit ℕ)).keys ()
    s.latest = some ⟨⟨2, none, none⟩, 2⟩ ∧ s.resident = none ∧ s.remote = none := by
  decide +kernel

end KvOverflowStore
end ShardKv
