import ShardKv.Foundations.Charges
import ShardKv.Overflow.OverflowStore

/-!
# The metadata budget of the key-value overflow store

With a finite limit every key that the store keeps anything about is charged once,
by the length of its key and a constant. A set reserves the charge when it finds
the key nowhere, and a completed delete or a fault-in that misses releases it. Each
of these decides for itself, from what it can see, whether the key is new or gone.

A key is shorter than a machine word, so that its charge does not overflow.
-/
namespace ShardKv

variable {κ ι β : Type} [DecidableEq κ] [DecidableEq ι] [DecidableEq β]

def kvOverflowMetadataEntryOverhead : ℕ := 128

structure KvOverflowMetadataBudget where
  used : ℕ
  limit : ℕ
  deriving DecidableEq

namespace KvOverflowMetadataBudget

variable (budget : KvOverflowMetadataBudget) (keyLen : ℕ)

def charge : ℕ := keyLen + kvOverflowMetadataEntryOverhead

theorem charge_pos : 0 < charge keyLen := by
  rw [charge, kvOverflowMetadataEntryOverhead]
  omega

def tryReserve : Option KvOverflowMetadataBudget :=
  if budget.used + charge keyLen ≤ budget.limit then
    some { budget with used := budget.used + charge keyLen }
  else none

def release : KvOverflowMetadataBudget := { budget with used := budget.used - charge keyLen }

end KvOverflowMetadataBudget

/-- The steps of a key that the budget is about. `governedEnd` is the end of a governed fault-in,
with the metadata it expected and what it got from the node, and `synchronize` is the turn of the
key in `synchronize_resident`. -/
inductive BudgetAction (ι β : Type)
  | step (action : KeyAction β)
  | governedEnd (expected : RemoteKeyMeta ι) (remote : Option (OverflowValue β))
      (authorized admitted : Bool)
  | synchronize (succeeded : Bool)

namespace OverflowKey

variable (options : KvOverflowOptions) (shard : ι) (nowMs : ℕ) (s : OverflowKey ι β)
  {expected : RemoteKeyMeta ι} (next reader : ℕ) (succeeded : Bool)

def tracksPending : Bool := s.pending.any (·.tracksKey)

/-- The store keeps something about the key. -/
def tracked : Bool := s.resident.isSome || s.remote.isSome || s.tracksPending

def isValueProtected : Bool :=
  s.resident.any fun entry => entry.written.governance.isSome && !entry.written.isExpired nowMs

def isLive : Bool := s.resident.any fun entry => !entry.written.isExpired nowMs

def newlyTracked : Bool :=
  !((s.innerGet nowMs).isSome || s.isValueProtected nowMs || s.remote.isSome || s.tracksPending)

/-- The rest of `fault_in_once_with_governance`, under the key gate. -/
def governedEnd (expected : RemoteKeyMeta ι) (remote : Option (OverflowValue β))
    (authorized admitted : Bool) : OverflowKey ι β :=
  if !s.gateFree || s.isLive nowMs || s.remote ≠ some expected then s
  else
    match remote with
    | none =>
      if options.forgetRemoteMisses || isExpiredAt expected.expireAtMs nowMs then
        { s with remote := none }
      else s
    | some remote =>
      if authorized && admitted then
        { s with
          resident := some
            ⟨⟨remote.value, remote.governance, expected.expireAtMs⟩, expected.generation⟩ }
      else s

/-- The turn of a key in `synchronize_resident`, once the budget has let it pass. -/
def synchronize : ℕ × OverflowKey ι β :=
  if !s.gateFree then (next, s)
  else
    match s.resident with
    | none => (next, s)
    | some entry =>
      if entry.written.isExpired nowMs || !succeeded then (next, s)
      else
        (next + 1, { s with
            node := some entry.written
            remote := some ⟨shard, entry.written.expireAtMs, next, true,
              entry.written.governance.isSome⟩ })

def budgetStep : BudgetAction ι β → ℕ × OverflowKey ι β
  | .step action => s.step options shard nowMs next action
  | .governedEnd expected remote authorized admitted =>
    (next, s.governedEnd options nowMs expected remote authorized admitted)
  | .synchronize succeeded => s.synchronize shard nowMs next succeeded

/-- Whether the step first reserves the charge of the key. -/
def reserves : BudgetAction ι β → Bool
  | .step (.setResident _ _ _ _) => s.client = .idle && s.newlyTracked nowMs
  | .synchronize _ => s.gateFree && s.isLive nowMs && s.remote.isNone
  | _ => false

def deleteReleases (generation : ℕ) (succeeded : Bool) : Bool :=
  succeeded && s.pending.any fun pending => pending.generation = generation && pending.tracksKey

/-- Whether a fault-in that found nothing on the node takes the metadata away. -/
def forgets (expected : RemoteKeyMeta ι) : Bool := s.remote = some expected &&
    (options.forgetRemoteMisses || isExpiredAt expected.expireAtMs nowMs)

/-- Whether the step releases the charge of the key at its end. What was reserved for a set or a
synchronisation that then fails is given back. -/
def releases : BudgetAction ι β → Bool
  | .step (.setResident value governance ttlMs admitted) =>
    !admitted && s.reserves nowMs (.step (.setResident value governance ttlMs admitted))
  | .synchronize succeeded => !succeeded && s.reserves nowMs (.synchronize succeeded)
  | .step .deleteEnd =>
    match s.client with
    | .deleting generation _ (some succeeded) => s.deleteReleases generation succeeded
    | _ => false
  | .step (.complete index) =>
    match s.completions[index]? with
    | some (.delete generation succeeded) => s.gateFree && s.deleteReleases generation succeeded
    | _ => false
  | .step (.readEnd reader _) =>
    match s.readers reader with
    | .fetched _ expected none =>
      s.gateFree && (s.innerGet nowMs).isNone && s.forgets options nowMs expected
    | _ => false
  | .governedEnd expected none _ _ =>
    s.gateFree && !s.isLive nowMs && s.forgets options nowMs expected
  | _ => false

/-- A delete must have seen what it removes. One that fails for good must not have been the last
to know about the key. -/
def SafeDelete (generation : ℕ) (succeeded : Bool) : Prop :=
  ∀ pending, s.pending = some pending → pending.generation = generation →
    if succeeded then
      pending.tracksKey = true ∨ s.resident.isSome = false ∧ s.remote.isSome = false
    else
      pending.mutation = .delete true ∨ pending.tracksKey = false ∨
        s.resident.isSome = true ∨ s.remote.isSome = true

/-- An expired value that is still stored must not be all that is left of the key. -/
def SafeExpiry : Prop :=
  s.resident.isSome = true → s.isLive nowMs = false → s.remote.isSome = true ∨ s.tracksPending = true

/-- Metadata may only be forgotten with a release when nothing else is known about the key. -/
def SafeMiss (expected : RemoteKeyMeta ι) : Prop :=
  s.forgets options nowMs expected = true → s.resident.isSome = false ∧ s.tracksPending = false

/-- What a step asks of the key it meets, so that what it reserves and releases is right. -/
def SafeStep : BudgetAction ι β → Prop
  | .step (.setResident _ _ _ true) => s.client = .idle → s.SafeExpiry nowMs
  | .step .setForget =>
    ∀ entry, s.client = .setting entry false → s.remote.isSome = true →
      s.resident.isSome = true ∨ s.tracksPending = true
  | .step .deleteEnd =>
    ∀ generation present succeeded, s.client = .deleting generation present (some succeeded) →
      s.SafeDelete generation succeeded
  | .step (.complete index) =>
    ∀ generation succeeded, s.completions[index]? = some (.delete generation succeeded) →
      s.gateFree = true → s.SafeDelete generation succeeded
  | .step .purge => s.SafeExpiry nowMs
  | .step (.readEnd reader _) =>
    ∀ began expected, s.readers reader = .fetched began expected none → s.gateFree = true →
      s.innerGet nowMs = none → s.SafeMiss options nowMs expected
  | .governedEnd expected none _ _ =>
    s.gateFree = true → s.isLive nowMs = false → s.SafeMiss options nowMs expected
  | .synchronize true =>
    s.gateFree = true → s.isLive nowMs = true → s.remote.isSome = true
  | _ => True

variable {s options shard nowMs}

/-- What a step reserves and releases is the difference it makes to whether the key is tracked. -/
def Balanced (options : KvOverflowOptions) (shard : ι) (nowMs next : ℕ) (s : OverflowKey ι β)
    (action : BudgetAction ι β) : Prop :=
  (s.reserves nowMs action).toNat + s.tracked.toNat = (s.releases options nowMs action).toNat +
      (s.budgetStep options shard nowMs next action).2.tracked.toNat

/-- The step is safe exactly when what it reserves and releases is right. -/
def Judged (options : KvOverflowOptions) (shard : ι) (nowMs next : ℕ) (s : OverflowKey ι β)
    (action : BudgetAction ι β) : Prop :=
  s.SafeStep options nowMs action ↔ s.Balanced options shard nowMs next action

section Tracked

omit [DecidableEq β]

section

omit [DecidableEq ι]

theorem isSome_resident_of_isLive (h : s.isLive nowMs = true) : s.resident.isSome = true := by
  cases hres : s.resident with
  | none => simp [isLive, hres] at h
  | some => rfl

/-- A set does not look at values that are stored but expired. -/
theorem newlyTracked_eq : s.newlyTracked nowMs =
    (!s.isLive nowMs && !s.remote.isSome && !s.tracksPending) := by
  cases hres : s.resident with
  | none => simp [newlyTracked, innerGet, isValueProtected, isLive, hres]
  | some entry =>
    cases hgov : entry.written.governance <;> cases hexp : entry.written.isExpired nowMs <;>
      simp [newlyTracked, innerGet, isValueProtected, isLive, hres, hgov, hexp]

theorem safeExpiry_iff :
    s.SafeExpiry nowMs ↔ (s.newlyTracked nowMs).toNat + s.tracked.toNat = 1 := by
  have hlive : s.isLive nowMs = true → s.resident.isSome = true := isSome_resident_of_isLive
  rw [newlyTracked_eq, SafeExpiry, tracked]
  cases hres : s.resident.isSome <;> cases hrem : s.remote.isSome <;>
    cases hpend : s.tracksPending <;> cases h : s.isLive nowMs <;> simp_all

theorem tracked_applyPutCompletion (retryValue retryGovernance : Option β) (isProtected : Bool)
    (expireAtMs : Option ℕ) (generation : ℕ) (succeeded : Bool) :
    (s.applyPutCompletion shard retryValue retryGovernance isProtected expireAtMs generation
      succeeded).tracked = s.tracked := by
  cases hres : s.resident with
  | none => simp [applyPutCompletion, overflowGenerationMatches, hres]
  | some =>
    simp only [applyPutCompletion]
    split_ifs with hcurrent hok
    · rfl
    · simp [tracked, hres]
    · cases retryValue with
      | none => rfl
      | some => simp [tracked, hres]

theorem tracked_execute : (s.execute succeeded).tracked = s.tracked := by
  unfold execute
  split <;> rfl

theorem tracked_noteRetry : s.noteRetry.tracked = s.tracked := by
  unfold noteRetry
  split
  · split <;> rfl
  · rfl

theorem tracked_enqueuePendingRetry (candidate : PendingKeyMeta ι β) :
    (s.enqueuePendingRetry candidate).tracked = s.tracked := by
  cases hpend : s.pending with
  | none => simp [enqueuePendingRetry, hpend]
  | some =>
    simp only [enqueuePendingRetry, hpend]
    split
    · split <;> simp [tracked, tracksPending, hpend]
    · rfl

theorem tracked_retry (index : ℕ) : (s.retry index).tracked = s.tracked := by
  unfold retry
  split
  · rfl
  · split
    · exact tracked_enqueuePendingRetry _
    · rfl

theorem tracked_noteExpired : (s.noteExpired nowMs).tracked = s.tracked := by
  unfold noteExpired
  split
  · split <;> rfl
  · rfl

theorem ReaderStep.tracked {s' : OverflowKey ι β} {fetchOnMiss : Bool}
    (h : s.ReaderStep nowMs reader fetchOnMiss s') : s'.tracked = s.tracked := by
  obtain ⟨_, -, rfl⟩ := h
  rfl

/-- Metadata goes away and its charge with it. -/
theorem toNat_tracked_forget_iff (hrem : s.remote.isSome = true) :
    s.tracked.toNat = 1 + ({ s with remote := none } : OverflowKey ι β).tracked.toNat ↔
      s.resident.isSome = false ∧ s.tracksPending = false := by
  cases hres : s.resident.isSome <;> cases hpend : s.pending.any (·.tracksKey) <;>
    simp [tracked, tracksPending, hrem, hres, hpend]

theorem tracked_setReader (phase : FaultIn ι β) : (s.setReader reader phase).tracked = s.tracked :=
  rfl

theorem tracked_of_deleteReleases {generation : ℕ} {succeeded : Bool}
    (h : s.deleteReleases generation succeeded = true) : s.tracked = true := by
  cases hpend : s.pending with
  | none => simp [deleteReleases, hpend] at h
  | some =>
    simp only [deleteReleases, hpend, Option.any_some, Bool.and_eq_true] at h
    simp [tracked, tracksPending, hpend, h.2.2]

end

theorem tracked_evict : (s.evict nowMs shard).tracked = s.tracked := by
  unfold evict
  split
  · cases hrem : s.remote with
    | none => simp_all [evictable]
    | some => simp [tracked, hrem]
  · rfl

/-- A fault-in that found a value changes nothing about whether its key is tracked. -/
theorem tracked_readEnd_found {began : Option (OverflowEntry β)} {remote : OverflowValue β}
    {reader : ℕ} (admitted : Bool)
    (hphase : s.readers reader = .fetched began expected (some remote)) :
    (s.readEnd nowMs options.forgetRemoteMisses reader admitted).tracked = s.tracked := by
  cases hgate : s.gateFree with
  | false => simp [readEnd, hgate]
  | true =>
    simp only [readEnd, hgate, hphase, Bool.not_true, Bool.false_eq_true, if_false]
    split
    · rfl
    · by_cases hrem : s.remote = some expected
      · split_ifs <;> rw [tracked_setReader] <;> simp [tracked, hrem]
      · simp [hrem, tracked_setReader]

theorem readEnd_missed {began : Option (OverflowEntry β)} {reader : ℕ} (admitted : Bool)
    (hphase : s.readers reader = .fetched began expected none) :
    (s.readEnd nowMs options.forgetRemoteMisses reader admitted).tracked =
      if s.gateFree && (s.innerGet nowMs).isNone && s.forgets options nowMs expected then
        ({ s with remote := none } : OverflowKey ι β).tracked
      else s.tracked := by
  cases hgate : s.gateFree with
  | false => simp [readEnd, hgate]
  | true =>
    simp only [readEnd, hgate, hphase, forgets, Bool.not_true, Bool.false_eq_true, if_false]
    cases hinner : s.innerGet nowMs with
    | some => simp [tracked_setReader]
    | none =>
      by_cases hrem : s.remote = some expected
      · simp only [hrem, ne_eq, not_true_eq_false, if_false, tracked_setReader, decide_true,
          Bool.true_and, Option.isNone_none]
        split_ifs <;> rfl
      · simp [hrem, tracked_setReader]

theorem tracked_of_forgets (h : s.forgets options nowMs expected = true) : s.tracked = true := by
  simp only [forgets, Bool.and_eq_true, decide_eq_true_eq] at h
  simp [tracked, h.1]

end Tracked

section

attribute [local simp] releases SafeStep reserves budgetStep step

omit [DecidableEq ι] in
theorem safeDelete_iff (generation : ℕ) (succeeded : Bool) : s.SafeDelete generation succeeded ↔
      s.tracked.toNat = (s.deleteReleases generation succeeded).toNat +
        (s.applyDeleteCompletion generation succeeded).tracked.toNat := by
  cases hpending : s.pending with
  | none => simp [SafeDelete, deleteReleases, applyDeleteCompletion, hpending]
  | some pending =>
    by_cases hgen : pending.generation = generation
    · cases succeeded with
      | true =>
        cases htracks : pending.tracksKey <;> cases hres : s.resident <;>
          cases hrem : s.remote <;>
          simp [SafeDelete, deleteReleases, applyDeleteCompletion, tracked, tracksPending, *]
      | false =>
        by_cases hretry : pending.mutation = .delete true
        · simp [SafeDelete, deleteReleases, applyDeleteCompletion, tracked, tracksPending, *]
        · have hgone : s.applyDeleteCompletion generation false = { s with pending := none } := by
            simp only [applyDeleteCompletion, hpending, hgen, ne_eq, not_true_eq_false, if_false,
              Bool.false_eq_true]
          rw [hgone]
          cases htracks : pending.tracksKey <;> cases hres : s.resident <;>
            cases hrem : s.remote <;> simp [SafeDelete, deleteReleases, tracked, tracksPending, *]
    · simp [SafeDelete, deleteReleases, applyDeleteCompletion, hpending, hgen]

theorem judged_setResident (value : β) (governance : Option β) (ttlMs : Option ℕ)
    (admitted : Bool) :
    s.Judged options shard nowMs next (.step (.setResident value governance ttlMs admitted)) := by
  cases admitted with
  | false =>
    simp only [Judged, SafeStep, Balanced, releases, budgetStep, step, Bool.not_false,
      Bool.true_and, Bool.false_eq_true, if_false]
  | true =>
    cases hclient : s.client with
    | idle =>
      have hafter : (s.budgetStep options shard nowMs next
          (.step (.setResident value governance ttlMs true))).2.tracked = true := by
        simp [budgetStep, step, setResident, hclient, tracked]
      simp only [Judged, SafeStep, Balanced, hafter, releases, reserves, hclient, forall_const,
        safeExpiry_iff, Bool.not_true, Bool.false_and, Bool.toNat_false, Bool.toNat_true,
        decide_true, Bool.true_and, Nat.zero_add]
    | setting entry forgotten | deleting generation present outcome =>
      simp [Judged, SafeStep, Balanced, releases, reserves, budgetStep, step, setResident, hclient]

theorem judged_setForget : s.Judged options shard nowMs next (.step .setForget) := by
  simp only [Judged, SafeStep, Balanced, releases, reserves, budgetStep, step, setForget]
  cases hclient : s.client with
  | idle | deleting => simp
  | setting entry forgotten =>
    cases forgotten with
    | true => simp
    | false =>
      cases hres : s.resident <;> cases hrem : s.remote <;> cases hpend : s.tracksPending <;>
        simp_all [tracked, tracksPending]

theorem judged_deleteBegin : s.Judged options shard nowMs next (.step .deleteBegin) := by
  simp only [Judged, SafeStep, Balanced, releases, reserves, budgetStep, step, deleteBegin]
  cases hclient : s.client with
  | setting | deleting => simp
  | idle =>
    cases hres : s.resident <;> cases hrem : s.remote <;> cases hpend : s.pending <;>
      simp [tracked, tracksPending, innerGet, hres, hrem, hpend]

theorem judged_deleteEnd : s.Judged options shard nowMs next (.step .deleteEnd) := by
  simp only [Judged, SafeStep, Balanced, releases, reserves, budgetStep, step, deleteEnd]
  cases hclient : s.client with
  | idle | setting => simp
  | deleting generation present outcome =>
    cases outcome with
    | none => simp
    | some succeeded =>
      simp only [ClientCall.deleting.injEq, Option.some.injEq, and_imp, Bool.toNat_false,
        Nat.zero_add]
      refine Iff.trans ?_ (safeDelete_iff generation succeeded)
      exact ⟨fun h => h generation present succeeded rfl rfl rfl, by
        rintro h _ _ _ rfl rfl rfl
        exact h⟩

theorem judged_complete (index : ℕ) :
    s.Judged options shard nowMs next (.step (.complete index)) := by
  simp only [Judged, SafeStep, Balanced, releases, reserves, budgetStep, step, complete]
  cases hgate : s.gateFree with
  | false => cases s.completions[index]? with
    | none => simp
    | some completion => cases completion <;> simp
  | true =>
    cases hnext : s.completions[index]? with
    | none => simp
    | some completion =>
      cases completion with
      | put =>
        simp only [Option.some.injEq, reduceCtorEq, false_imp_iff, implies_true, Bool.not_true,
          Bool.false_eq_true, if_false, tracked_applyPutCompletion, Bool.toNat_false, Nat.zero_add,
          true_iff]
        rfl
      | delete generation succeeded =>
        have hdelete := safeDelete_iff (s := { s with completions := s.completions.eraseIdx index })
          generation succeeded
        simp only [Option.some.injEq, KvOverflowCompletion.delete.injEq, and_imp, forall_const,
          Bool.not_true, Bool.false_eq_true, if_false, Bool.toNat_false, Nat.zero_add,
          Bool.true_and]
        refine Iff.trans ?_ hdelete
        exact ⟨fun h => h generation succeeded rfl rfl, by
          rintro h _ _ rfl rfl
          exact h⟩

theorem judged_purge : s.Judged options shard nowMs next (.step .purge) := by
  simp only [Judged, SafeStep, Balanced, releases, reserves, budgetStep, step, purge, SafeExpiry]
  cases hres : s.resident with
  | none => simp [isLive, hres]
  | some entry =>
    cases hexp : entry.written.isExpired nowMs <;> cases hrem : s.remote.isSome <;>
      cases hpend : s.tracksPending <;>
      simp_all [isLive, tracked, tracksPending]

/-- The steps that neither reserve nor release, and leave alone whether the key is tracked. -/
theorem judged_of_tracked_eq {action : BudgetAction ι β} {next : ℕ}
    (h : (s.budgetStep options shard nowMs next action).2.tracked = s.tracked)
    (hsafe : s.SafeStep options nowMs action := by trivial)
    (hreserve : s.reserves nowMs action = false := by rfl)
    (hrelease : s.releases options nowMs action = false := by rfl) :
    s.Judged options shard nowMs next action := by
  refine iff_of_true hsafe ?_
  rw [Balanced, hreserve, hrelease, h]

/-- A clean-up finds the metadata still there. -/
theorem tracked_cleanupExpired (expected : RemoteKeyMeta ι) :
    (s.cleanupExpired shard next expected).2.tracked = s.tracked := by
  by_cases hrem : s.remote = some expected
  · cases hpend : s.pending with
    | none => simp [cleanupExpired, hpend, hrem, tracked]
    | some =>
      simp only [cleanupExpired, hpend, hrem, ne_eq, not_true_eq_false, if_false]
      split <;> simp [tracked, hrem]
  · simp [cleanupExpired, hrem]

theorem tracked_cleanup (index : ℕ) : (s.cleanup shard next index).2.tracked = s.tracked := by
  unfold cleanup
  split
  · rfl
  · split
    · exact tracked_cleanupExpired next _
    · rfl

theorem judged_governedEnd (expected : RemoteKeyMeta ι) (remote : Option (OverflowValue β))
    (authorized admitted : Bool) :
    s.Judged options shard nowMs next (.governedEnd expected remote authorized admitted) := by
  cases remote with
  | none =>
    simp only [Judged, SafeStep, Balanced, releases, reserves, budgetStep, governedEnd, SafeMiss,
      forgets]
    by_cases hrem : s.remote = some expected
    · have hforget := toNat_tracked_forget_iff (s := s) (by rw [hrem]; rfl)
      cases hgate : s.gateFree <;> cases hlive : s.isLive nowMs <;>
        cases hover : options.forgetRemoteMisses || isExpiredAt expected.expireAtMs nowMs <;>
        simp_all
    · simp [hrem]
  | some =>
    refine judged_of_tracked_eq ?_
    simp only [budgetStep, governedEnd]
    split
    · rfl
    · split
      · simp_all [tracked]
      · rfl

theorem judged_synchronize : s.Judged options shard nowMs next (.synchronize succeeded) := by
  cases succeeded with
  | false =>
    have hkeep : (s.synchronize shard nowMs next false).2 = s := by
      unfold synchronize
      split
      · rfl
      · split <;> simp
    simp only [Judged, SafeStep, Balanced, releases, budgetStep, hkeep, Bool.not_false,
      Bool.true_and]
  | true =>
    simp only [Judged, SafeStep, Balanced, releases, reserves, budgetStep, synchronize]
    cases hres : s.resident with
    | none => simp [isLive, hres]
    | some entry =>
      cases hgate : s.gateFree <;> cases hexp : entry.written.isExpired nowMs <;>
        cases hrem : s.remote <;> simp_all [isLive, tracked]

theorem judged_readEnd (admitted : Bool) :
    s.Judged options shard nowMs next (.step (.readEnd reader admitted)) := by
  simp only [Judged, SafeStep, Balanced, releases, reserves, budgetStep, step]
  cases hphase : s.readers reader with
  | fetched began expected remote =>
    cases remote with
    | some => simp [tracked_readEnd_found admitted hphase]
    | none =>
      simp only [readEnd_missed admitted hphase, SafeMiss, FaultIn.fetched.injEq, and_true, and_imp]
      cases hgate : s.gateFree with
      | false => simp
      | true =>
        cases hinner : s.innerGet nowMs with
        | some => simp
        | none =>
          cases hforgets : s.forgets options nowMs expected with
          | false => simp [hforgets]
          | true =>
            have hrem : s.remote.isSome = true := by
              simp only [forgets, Bool.and_eq_true, decide_eq_true_eq] at hforgets
              rw [hforgets.1, Option.isSome_some]
            simp [hforgets, toNat_tracked_forget_iff hrem]
  | _ => simp [readEnd, hphase]

/-- A step is safe exactly when what it reserves and releases is right. -/
theorem safeStep_iff (action : BudgetAction ι β) :
    s.SafeStep options nowMs action ↔ s.Balanced options shard nowMs next action := by
  cases action with
  | governedEnd => exact judged_governedEnd next ..
  | synchronize => exact judged_synchronize next _
  | step action =>
    cases action with
    | setResident => exact judged_setResident next ..
    | setForget => exact judged_setForget next
    | setEnqueue =>
      refine judged_of_tracked_eq ?_
      simp only [budgetStep, step, setEnqueue]
      split <;> rfl
    | deleteBegin => exact judged_deleteBegin next
    | deleteEnd => exact judged_deleteEnd next
    | execute => exact judged_of_tracked_eq (tracked_execute _)
    | complete => exact judged_complete next _
    | noteRetry => exact judged_of_tracked_eq tracked_noteRetry
    | retry => exact judged_of_tracked_eq (tracked_retry _)
    | noteExpired => exact judged_of_tracked_eq tracked_noteExpired
    | cleanup => exact judged_of_tracked_eq (tracked_cleanup next _)
    | evict => exact judged_of_tracked_eq tracked_evict
    | purge => exact judged_purge next
    | readBegin => exact judged_of_tracked_eq (ReaderStep.tracked _ (readBegin_step ..))
    | readExpect =>
      exact judged_of_tracked_eq (ReaderStep.tracked _ (readExpect_step s nowMs _ true))
    | readCheck => exact judged_of_tracked_eq (ReaderStep.tracked _ (readCheck_step s nowMs _ true))
    | readFetch =>
      exact judged_of_tracked_eq (ReaderStep.tracked _ (readFetch_step s nowMs _ true _))
    | readEnd => exact judged_readEnd next ..

end

/-- Only what is charged, or has just been charged, is released. -/
theorem reserves_or_tracked_of_releases {action : BudgetAction ι β}
    (h : s.releases options nowMs action = true) :
    s.reserves nowMs action = true ∨ s.tracked = true := by
  unfold releases at h
  split at h
  · exact .inl (Bool.and_eq_true_iff.mp h).2
  · exact .inl (Bool.and_eq_true_iff.mp h).2
  · split at h
    · exact .inr (tracked_of_deleteReleases h)
    · cases h
  · split at h
    · exact .inr (tracked_of_deleteReleases (Bool.and_eq_true_iff.mp h).2)
    · cases h
  · split at h
    · exact .inr (tracked_of_forgets (Bool.and_eq_true_iff.mp h).2)
    · cases h
  · exact .inr (tracked_of_forgets (Bool.and_eq_true_iff.mp h).2)
  · cases h

end OverflowKey
end ShardKv
