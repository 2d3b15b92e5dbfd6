import ShardKv.Overflow.OverflowStore

/-!
# Where generations come from

Every job, completion, pending mutation and piece of metadata of a key carries
the generation of the call it stems from. `Traced` says that one assignment of
calls to generations explains all of them at once. Two things of one generation
then have one origin, and a generation that was not issued yet occurs nowhere.
-/
namespace ShardKv

open Function List
variable {ι β : Type}

/-- The call that a generation was issued for. -/
inductive OverflowOrigin (β : Type)
  | set (written : OverflowValue β)
  | delete
  | cleanup

/-- The origin of a pending mutation; a put without a payload has none. -/
def PendingMutation.origin : PendingMutation β → Option (OverflowOrigin β)
  | .put (some value) governance expireAtMs => some (.set ⟨value, governance, expireAtMs⟩)
  | .put none _ _ => none
  | .delete true => some .cleanup
  | .delete false => some .delete

namespace KvOverflowJob

def generation : KvOverflowJob β → ℕ
  | .put _ generation => generation
  | .delete generation _ => generation

def origin : KvOverflowJob β → OverflowOrigin β
  | .put written _ => .set written
  | .delete _ true => .delete
  | .delete _ false => .cleanup

end KvOverflowJob

/-- What a completion says about the call it answers. -/
def KvOverflowCompletion.Traced (origin : ℕ → Option (OverflowOrigin β)) :
    KvOverflowCompletion β → Prop
  | .put retryValue retryGovernance isProtected expireAtMs generation succeeded =>
    ∃ written, origin generation = some (.set written) ∧ expireAtMs = written.expireAtMs ∧
      isProtected = written.governance.isSome ∧
      (succeeded = false → retryValue = some written.value ∧ retryGovernance = written.governance)
  | .delete generation _ => origin generation = some .cleanup

namespace FaultIn

/-- The metadata that a `get` goes by. -/
def expected : FaultIn ι β → Option (RemoteKeyMeta ι)
  | .expecting _ expected => some expected
  | .fetching _ expected => some expected
  | .fetched _ expected _ => some expected
  | _ => none

/-- The latest set when a `get` that is still under way began. -/
def waitsSince : FaultIn ι β → Option (OverflowEntry β)
  | .missed began => began
  | .expecting began _ => began
  | .fetching began _ => began
  | .fetched began _ _ => began
  | _ => none

end FaultIn

namespace OverflowKey

structure Traced (origin : ℕ → Option (OverflowOrigin β)) (next : ℕ) (s : OverflowKey ι β) :
    Prop where
  unissued : ∀ generation, next ≤ generation → origin generation = none
  latest : ∀ entry, s.latest = some entry → origin entry.generation = some (.set entry.written)
  remote : ∀ remote, s.remote = some remote → ∃ written,
    origin remote.generation = some (.set written)
  pending : ∀ pending, s.pending = some pending → ∃ source,
    origin pending.generation = some source ∧ pending.mutation.origin = some source
  queued : ∀ pending, s.pending = some pending → pending.mutation = .delete false →
    pending.queued = true
  jobs : ∀ job ∈ s.jobs, origin job.generation = some job.origin
  completions : ∀ completion ∈ s.completions, completion.Traced origin
  retries : ∀ pending ∈ s.retries, ∃ source,
    origin pending.generation = some source ∧ pending.mutation.origin = some source
  expired : ∀ remote ∈ s.expired, ∃ written, origin remote.generation = some (.set written)
  expected : ∀ reader remote, (s.readers reader).expected = some remote → ∃ written,
    origin remote.generation = some (.set written)
  waits : ∀ reader entry, (s.readers reader).waitsSince = some entry → ∃ written,
    origin entry.generation = some (.set written)
  setting : ∀ entry forgotten, s.client = .setting entry forgotten →
    origin entry.generation = some (.set entry.written)

theorem traced_empty : Traced (fun _ => none) 1 ({} : OverflowKey ι β) where
  unissued _ _ := rfl
  latest _ h := by cases h
  remote _ h := by cases h
  pending _ h := by cases h
  queued _ h := by cases h
  jobs _ h := by cases h
  completions _ h := by cases h
  retries _ h := by cases h
  expired _ h := by cases h
  expected _ _ h := by cases h
  waits _ _ h := by cases h
  setting _ _ h := by cases h

namespace Traced

variable {origin : ℕ → Option (OverflowOrigin β)} {next : ℕ} {s : OverflowKey ι β}

section

variable (h : Traced origin next s)
include h

theorem mono {next' : ℕ} (hnext : next ≤ next') : Traced origin next' s :=
  { h with unissued := fun generation hle => h.unissued generation (hnext.trans hle) }

section

variable {generation : ℕ} {source : OverflowOrigin β} (hsource : origin generation = some source)
include hsource

/-- What has an origin was issued before, and keeps its origin when the next generation is. -/
theorem origin_issue (new : OverflowOrigin β) :
    Function.update origin next (some new) generation = some source := by
  rw [update_of_ne, hsource]
  rintro rfl
  rw [h.unissued generation le_rfl] at hsource
  cases hsource

theorem ne_next : generation ≠ next := by
  rintro rfl
  rw [h.unissued generation le_rfl] at hsource
  cases hsource

end

theorem issue (new : OverflowOrigin β) :
    Traced (Function.update origin next (some new)) (next + 1) s where
  unissued generation hle := by
    rw [update_of_ne (by omega), h.unissued generation (by omega)]
  latest entry hentry := h.origin_issue (h.latest entry hentry) new
  remote remote hremote := (h.remote remote hremote).imp fun _ hw => h.origin_issue hw new
  pending pending hpending :=
    (h.pending pending hpending).imp fun _ hw => ⟨h.origin_issue hw.1 new, hw.2⟩
  queued := h.queued
  jobs job hjob := h.origin_issue (h.jobs job hjob) new
  completions completion hcompletion := by
    have hold := h.completions completion hcompletion
    cases completion with
    | put _ _ _ _ _ _ => exact hold.imp fun _ hw => ⟨h.origin_issue hw.1 new, hw.2⟩
    | delete _ _ => exact h.origin_issue hold new
  retries pending hpending :=
    (h.retries pending hpending).imp fun _ hw => ⟨h.origin_issue hw.1 new, hw.2⟩
  expired remote hremote := (h.expired remote hremote).imp fun _ hw => h.origin_issue hw new
  expected reader remote hremote :=
    (h.expected reader remote hremote).imp fun _ hw => h.origin_issue hw new
  waits reader entry hentry := (h.waits reader entry hentry).imp fun _ hw => h.origin_issue hw new
  setting entry forgotten hclient := h.origin_issue (h.setting entry forgotten hclient) new

end
end Traced

variable {origin : ℕ → Option (OverflowOrigin β)} {next nowMs : ℕ} {s : OverflowKey ι β}

section

variable (h : Traced origin next s)
include h

theorem setResident_traced (value : β) (governance : Option β) (ttlMs : Option ℕ) :
    ∃ origin', Traced origin' (next + 1) (s.setResident nowMs next value governance ttlMs) := by
  unfold setResident
  split
  · refine ⟨_, { h.issue (.set (setEntry nowMs next value governance ttlMs).written) with
      latest := ?_, setting := ?_ }⟩
    · intro entry hentry
      dsimp only at hentry
      split_ifs at hentry
      obtain rfl := Option.some.inj hentry
      exact update_self ..
    · rintro _ _ ⟨⟩
      exact update_self ..
  · exact ⟨origin, h.mono (Nat.le_succ next)⟩

theorem setForget_traced : Traced origin next s.setForget := by
  unfold setForget
  split
  next entry hclient =>
    refine { h with remote := ?_, setting := ?_ }
    · rintro _ ⟨⟩
    · rintro _ _ ⟨⟩
      exact h.setting entry false hclient
  · exact h

theorem jobs_append {job : KvOverflowJob β} (hjob : origin job.generation = some job.origin) :
    ∀ j ∈ s.jobs ++ [job], origin j.generation = some j.origin :=
  forall_mem_append.mpr ⟨h.jobs, forall_mem_singleton.mpr hjob⟩

theorem setEnqueue_traced : Traced origin next s.setEnqueue := by
  unfold setEnqueue
  split
  next entry hclient =>
    refine { h with jobs := jobs_append h (h.setting entry true hclient), setting := ?_ }
    rintro _ _ ⟨⟩
  · exact h

theorem deleteBegin_traced (shard : ι) :
    ∃ origin', Traced origin' (next + 1) (s.deleteBegin nowMs shard next) := by
  unfold deleteBegin
  split
  · have hissued := h.issue .delete
    refine ⟨_, { hissued with pending := ?_, queued := ?_, jobs := ?_, setting := ?_ }⟩
    · rintro _ ⟨⟩
      exact ⟨.delete, update_self .., rfl⟩
    · rintro _ ⟨⟩ -
      rfl
    · exact jobs_append hissued (update_self ..)
    · rintro _ _ ⟨⟩
  · exact ⟨origin, h.mono (Nat.le_succ next)⟩

theorem applyPutCompletion_traced (shard : ι) {retryValue retryGovernance : Option β}
    {isProtected : Bool} {expireAtMs : Option ℕ} {generation : ℕ} {succeeded : Bool}
    (hcompletion : (KvOverflowCompletion.put retryValue retryGovernance isProtected expireAtMs
      generation succeeded).Traced origin) :
    Traced origin next (s.applyPutCompletion shard retryValue retryGovernance isProtected
      expireAtMs generation succeeded) := by
  obtain ⟨written, hsource, hexpire, -, hretry⟩ := hcompletion
  unfold applyPutCompletion
  split
  · exact h
  · cases succeeded with
    | true =>
      refine { h with remote := ?_, pending := ?_, queued := ?_ }
      · rintro _ ⟨⟩
        exact ⟨written, hsource⟩
      · rintro _ ⟨⟩
      · rintro _ ⟨⟩
    | false =>
      obtain ⟨rfl, rfl⟩ := hretry rfl
      refine { h with pending := ?_, queued := ?_ }
      · rintro _ ⟨⟩
        exact ⟨.set written, hsource, by rw [hexpire]; rfl⟩
      · rintro _ ⟨⟩ hmutation
        cases hmutation

theorem applyDeleteCompletion_traced (generation : ℕ) (succeeded : Bool) :
    Traced origin next (s.applyDeleteCompletion generation succeeded) := by
  unfold applyDeleteCompletion
  split
  · exact h
  next pending hpending =>
    split_ifs
    · exact h
    · refine { h with pending := ?_, queued := ?_, remote := ?_ } <;> rintro _ ⟨⟩
    · split
      next hmutation =>
        refine { h with pending := ?_, queued := ?_ }
        · rintro _ ⟨⟩
          exact h.pending pending hpending
        · rintro _ ⟨⟩ hdelete
          rw [hmutation] at hdelete
          cases hdelete
      · refine { h with pending := ?_, queued := ?_ } <;> rintro _ ⟨⟩

theorem deleteEnd_traced : Traced origin next s.deleteEnd := by
  unfold deleteEnd
  split
  next generation present succeeded hclient =>
    refine { applyDeleteCompletion_traced h generation succeeded with setting := ?_ }
    rintro _ _ ⟨⟩
  · exact h

theorem complete_traced (shard : ι) (index : ℕ) : Traced origin next (s.complete shard index) := by
  have hrest : Traced origin next { s with completions := s.completions.eraseIdx index } := { h with
      completions := fun completion hmem => h.completions completion (mem_of_mem_eraseIdx hmem) }
  unfold complete
  split
  · exact h
  · split
    next hget =>
      exact applyPutCompletion_traced hrest shard (h.completions _ (mem_of_getElem? hget))
    next => exact applyDeleteCompletion_traced hrest _ _
    next => exact h

theorem completions_append {completion : KvOverflowCompletion β}
    (hcompletion : completion.Traced origin) :
    ∀ c ∈ s.completions ++ [completion], c.Traced origin :=
  forall_mem_append.mpr ⟨h.completions, forall_mem_singleton.mpr hcompletion⟩

theorem execute_traced (succeeded : Bool) : Traced origin next (s.execute succeeded) := by
  have htail : ∀ job jobs, s.jobs = job :: jobs → origin job.generation = some job.origin ∧
        ∀ j ∈ jobs, origin j.generation = some j.origin := by
    intro job jobs hjobs
    have hall := h.jobs
    rw [hjobs] at hall
    exact ⟨hall job mem_cons_self, fun j hj => hall j (mem_cons_of_mem _ hj)⟩
  unfold execute
  split
  · exact h
  next written generation jobs hjobs =>
    obtain ⟨hsource, hrest⟩ := htail _ _ hjobs
    refine { h with jobs := hrest, completions := completions_append h ⟨written, hsource, ?_⟩ }
    exact ⟨rfl, rfl, fun hfailed => by simp [hfailed]⟩
  next generation jobs hjobs =>
    refine { h with latest := ?_, jobs := (htail _ _ hjobs).2, setting := ?_ }
    · intro entry hentry
      split_ifs at hentry
      exact h.latest entry hentry
    · intro entry forgotten hclient
      dsimp only at hclient
      split at hclient
      · cases hclient
      · exact h.setting entry forgotten hclient
  next generation jobs hjobs =>
    obtain ⟨hsource, hrest⟩ := htail _ _ hjobs
    exact { h with jobs := hrest, completions := completions_append h hsource }

theorem noteRetry_traced : Traced origin next s.noteRetry := by
  unfold noteRetry
  split
  next pending hpending =>
    split_ifs
    · exact h
    · have hnew := h.pending pending hpending
      exact { h with
        retries := forall_mem_append.mpr ⟨h.retries, forall_mem_singleton.mpr hnew⟩ }
  · exact h

/-- A copy that still has the generation of the pending mutation is a copy of that mutation. -/
theorem enqueuePendingRetry_traced {candidate : PendingKeyMeta ι β}
    (hcandidate : ∃ source, origin candidate.generation = some source ∧
      candidate.mutation.origin = some source) :
    Traced origin next (s.enqueuePendingRetry candidate) := by
  obtain ⟨source, hsource, hmutation⟩ := hcandidate
  unfold enqueuePendingRetry
  split
  · exact h
  next pending hpending =>
    split_ifs with hcurrent
    swap
    · exact h
    simp only [Bool.and_eq_true, decide_eq_true_eq, Bool.not_eq_true'] at hcurrent
    obtain ⟨source', hsource', hmutation'⟩ := h.pending pending hpending
    obtain rfl : source' = source := by
      rw [hcurrent.1, hsource] at hsource'
      exact (Option.some.inj hsource').symm
    split
    next value governance expireAtMs hput =>
      rw [hput] at hmutation
      refine { h with
        pending := ?_, queued := ?_, jobs := jobs_append h (hsource.trans hmutation.symm) }
      · rintro _ ⟨⟩
        exact ⟨source', hsource', hmutation'⟩
      · rintro _ ⟨⟩ -
        rfl
    · exact h
    next retryOnFailure hdelete =>
      have hcleanup : source' = .cleanup := by
        cases retryOnFailure with
        | true => rw [hdelete] at hmutation; exact (Option.some.inj hmutation).symm
        | false =>
          -- the client's own delete stays queued until it is answered
          exfalso
          rw [hdelete] at hmutation
          obtain rfl := Option.some.inj hmutation
          have hown : pending.mutation = .delete false := by
            revert hmutation'
            rcases pending.mutation with ⟨_ | _, _, _⟩ | ⟨_ | _⟩ <;> simp [PendingMutation.origin]
          rw [h.queued pending hpending hown] at hcurrent
          exact Bool.noConfusion hcurrent.2
      subst hcleanup
      refine { h with pending := ?_, queued := ?_, jobs := jobs_append h hsource }
      · rintro _ ⟨⟩
        exact ⟨.cleanup, hsource', hmutation'⟩
      · rintro _ ⟨⟩ -
        rfl

theorem retry_traced (index : ℕ) : Traced origin next (s.retry index) := by
  unfold retry
  split
  · exact h
  · split
    next candidate hget =>
      exact enqueuePendingRetry_traced h (h.retries candidate (mem_of_getElem? hget))
    next => exact h

theorem noteExpired_traced : Traced origin next (s.noteExpired nowMs) := by
  unfold noteExpired
  split
  next remote hremote =>
    split_ifs
    · have hnew := h.remote remote hremote
      exact { h with
        expired := forall_mem_append.mpr ⟨h.expired, forall_mem_singleton.mpr hnew⟩ }
    · exact h
  · exact h

theorem evict_traced [DecidableEq ι] (shard : ι) : Traced origin next (s.evict nowMs shard) := by
  unfold evict
  split_ifs
  · exact { h with }
  · exact h

theorem purge_traced : Traced origin next (s.purge nowMs) := by
  unfold purge
  split_ifs
  · exact { h with }
  · exact h

end

section Cleanup

variable [DecidableEq ι] [DecidableEq β]

theorem cleanupExpired_traced (h : Traced origin next s) (shard : ι) (expected : RemoteKeyMeta ι) :
    ∃ origin', Traced origin' (s.cleanupExpired shard next expected).1
      (s.cleanupExpired shard next expected).2 := by
  unfold cleanupExpired
  split_ifs
  · exact ⟨origin, h⟩
  · split
    next pending hpending =>
      split_ifs with hretry
      · simp only [Bool.and_eq_true, Bool.not_eq_true', decide_eq_true_eq] at hretry
        obtain ⟨source, hsource, hmutation⟩ := h.pending pending hpending
        rw [hretry.2] at hmutation
        obtain rfl := Option.some.inj hmutation
        refine ⟨origin, { h with pending := ?_, queued := ?_, jobs := jobs_append h hsource }⟩
        · rintro _ ⟨⟩
          exact ⟨_, hsource, by rw [hretry.2]; rfl⟩
        · rintro _ ⟨⟩ -
          rfl
      · exact ⟨origin, h⟩
    next =>
      have hissued := h.issue .cleanup
      refine ⟨_, { hissued with pending := ?_, queued := ?_, jobs := ?_ }⟩
      · rintro _ ⟨⟩
        exact ⟨.cleanup, update_self .., rfl⟩
      · rintro _ ⟨⟩ -
        rfl
      · exact jobs_append hissued (update_self ..)

theorem cleanup_traced (h : Traced origin next s) (shard : ι) (index : ℕ) :
    ∃ origin', Traced origin' (s.cleanup shard next index).1 (s.cleanup shard next index).2 := by
  unfold cleanup
  split
  · exact ⟨origin, h⟩
  · split
    · exact cleanupExpired_traced h shard _
    · exact ⟨origin, h⟩

end Cleanup

/-- A reader that takes a step has its new phase, the others have theirs. -/
theorem setReader_cases {P : FaultIn ι β → Prop} {reader : ℕ} {phase : FaultIn ι β} (hnew : P phase)
    (hold : ∀ other, P (s.readers other)) (other : ℕ) :
    P ((s.setReader reader phase).readers other) :=
  (forall_update_iff s.readers (p := fun _ phase => P phase)).mpr ⟨hnew, fun other _ => hold other⟩
    other

section

variable (h : Traced origin next s)
include h

theorem Traced.setReader (reader : ℕ) {phase : FaultIn ι β}
    (hexpected : ∀ remote, phase.expected = some remote →
      ∃ written, origin remote.generation = some (.set written))
    (hwaits : ∀ entry, phase.waitsSince = some entry →
      ∃ written, origin entry.generation = some (.set written)) :
    Traced origin next (s.setReader reader phase) := by
  exact
    { h with
      expected := setReader_cases (P := fun phase => ∀ remote, phase.expected = some remote →
        ∃ written, origin remote.generation = some (.set written)) hexpected h.expected
      waits := setReader_cases (P := fun phase => ∀ entry, phase.waitsSince = some entry →
        ∃ written, origin entry.generation = some (.set written)) hwaits h.waits }

/-- A `get` that ends goes by nothing any more. -/
theorem Traced.finish (reader : ℕ) (began ended : Option (OverflowEntry β)) (result : Option β) :
    Traced origin next (s.setReader reader (.finished began ended result)) :=
  h.setReader reader (by rintro _ ⟨⟩) (by rintro _ ⟨⟩)

theorem Traced.waitsSince {reader : ℕ} {began : Option (OverflowEntry β)}
    (hphase : (s.readers reader).waitsSince = began) :
    ∀ entry, began = some entry → ∃ written, origin entry.generation = some (.set written) :=
  fun entry hentry => h.waits reader entry (hphase.trans hentry)

/-- A reader goes by what it went by before, or by what the key holds now. -/
theorem ReaderStep.traced {s' : OverflowKey ι β} {reader : ℕ} {fetchOnMiss : Bool}
    (hstep : s.ReaderStep nowMs reader fetchOnMiss s') : Traced origin next s' := by
  obtain ⟨phase, hmove, rfl⟩ := hstep
  cases hmove with
  | stay => exact h.setReader reader (h.expected reader) (h.waits reader)
  | missed =>
    refine h.setReader reader (by rintro _ ⟨⟩) ?_
    exact fun entry hentry => ⟨entry.written, h.latest entry hentry⟩
  | again hphase =>
    exact h.setReader reader (by rintro _ ⟨⟩) (h.waitsSince (by rw [hphase]; rfl))
  | expecting hphase hremote | fetching hphase hremote =>
    refine h.setReader reader ?_ (h.waitsSince (by rw [hphase]; rfl))
    rintro _ ⟨⟩
    exact h.remote _ hremote
  | fetched hphase =>
    refine h.setReader reader ?_ (h.waitsSince (by rw [hphase]; rfl))
    rintro _ ⟨⟩
    exact h.expected reader _ (by rw [hphase]; rfl)
  | _ => exact h.setReader reader (by rintro _ ⟨⟩) (by rintro _ ⟨⟩)

theorem readEnd_traced [DecidableEq ι] (forgetRemoteMisses : Bool) (reader : ℕ) (admitted : Bool) :
    Traced origin next (s.readEnd nowMs forgetRemoteMisses reader admitted) := by
  unfold readEnd
  split
  · exact h
  · split
    next began expected remote hphase =>
      split
      · exact h.finish reader _ _ _
      · split
        · exact h.setReader reader (by rintro _ ⟨⟩) (h.waitsSince (by rw [hphase]; rfl))
        next hcurrent =>
          have hforget : Traced origin next { s with remote := none } :=
            { h with remote := by rintro _ ⟨⟩ }
          have hprotect : Traced origin next
              { s with remote := some { expected with isProtected := true } } := by
            refine { h with remote := ?_ }
            rintro _ ⟨⟩
            exact h.expected reader expected (by rw [hphase]; rfl)
          split
          · split_ifs
            · exact hforget.finish reader _ _ _
            · exact h.finish reader _ _ _
          · split
            · exact hprotect.finish reader _ _ _
            · split_ifs
              · refine Traced.finish ?_ reader _ _ _
                exact { h with }
              · exact h.finish reader _ _ _
    · exact h

/-- Every action keeps the origins. -/
theorem step_traced [DecidableEq ι] [DecidableEq β] (options : KvOverflowOptions) (shard : ι)
    (action : KeyAction β) :
    ∃ origin', Traced origin' (s.step options shard nowMs next action).1
      (s.step options shard nowMs next action).2 := by
  cases action with
  | setResident value governance ttlMs admitted =>
    cases admitted with
    | true => exact setResident_traced h value governance ttlMs
    | false => exact ⟨origin, h.mono (Nat.le_succ next)⟩
  | setForget => exact ⟨origin, setForget_traced h⟩
  | setEnqueue => exact ⟨origin, setEnqueue_traced h⟩
  | deleteBegin => exact deleteBegin_traced h shard
  | deleteEnd => exact ⟨origin, deleteEnd_traced h⟩
  | execute => exact ⟨origin, execute_traced h _⟩
  | complete => exact ⟨origin, complete_traced h shard _⟩
  | noteRetry => exact ⟨origin, noteRetry_traced h⟩
  | retry => exact ⟨origin, retry_traced h _⟩
  | noteExpired => exact ⟨origin, noteExpired_traced h⟩
  | cleanup => exact cleanup_traced h shard _
  | evict => exact ⟨origin, evict_traced h shard⟩
  | purge => exact ⟨origin, purge_traced h⟩
  | readBegin reader => exact ⟨origin, (readBegin_step ..).traced h⟩
  | readExpect => exact ⟨origin, (readExpect_step s nowMs _ true).traced h⟩
  | readCheck => exact ⟨origin, (readCheck_step s nowMs _ true).traced h⟩
  | readFetch => exact ⟨origin, (readFetch_step s nowMs _ true _).traced h⟩
  | readEnd => exact ⟨origin, readEnd_traced h _ _ _⟩

theorem observe_traced : Traced origin next (s.observe nowMs) := by
  refine { h with latest := ?_ }
  intro entry hentry
  exact h.latest entry (Option.eq_some_of_filter_eq_some hentry)

end
end OverflowKey
end ShardKv
