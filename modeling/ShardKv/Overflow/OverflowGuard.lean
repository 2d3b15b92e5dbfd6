import ShardKv.Overflow.OverflowTrace

/-!
# What keeps a written value

`Guards` describes the state of a key around the latest set that is still owed.
The entry is resident, or metadata of its generation stands for it. Metadata of
its generation means that the node has the value and that no queued job can take
it away but the delete of a client. Before such metadata exists the queue holds
what is left of earlier calls, then the puts of this set, and nothing else; a put
that is reported as successful has left the earlier part behind.
-/
namespace ShardKv

open List KvOverflowJob
variable {ι β : Type} (entry : OverflowEntry β)

/-- The job writes the value of this entry. -/
def KvOverflowJob.Writes : KvOverflowJob β → Prop
  | .put _ generation => generation = entry.generation
  | .delete _ _ => False

/-- The job does not take this entry from the node, unless a client deletes it. -/
def KvOverflowJob.Renews : KvOverflowJob β → Prop
  | .put _ generation => generation = entry.generation
  | .delete _ completion => completion = true

/-- The completion says that the node has this entry. -/
def KvOverflowCompletion.Confirms : KvOverflowCompletion β → Prop
  | .put _ _ _ _ generation succeeded => generation = entry.generation ∧ succeeded = true
  | .delete _ _ => False

namespace OverflowKey

variable {job : KvOverflowJob β} {generation : ℕ}

/-- There is metadata of the generation of this entry. -/
def Backed (entry : OverflowEntry β) (s : OverflowKey ι β) : Prop :=
  ∃ remote, s.remote = some remote ∧ remote.generation = entry.generation

/-- What metadata of the generation of this entry stands for. -/
structure Mirrored (entry : OverflowEntry β) (s : OverflowKey ι β) (remote : RemoteKeyMeta ι) :
    Prop where
  expireAtMs : remote.expireAtMs = entry.written.expireAtMs
  isProtected : remote.isProtected = true → entry.written.governance.isSome = true
  node : s.node = some entry.written
  jobs : ∀ job ∈ s.jobs, job.Renews entry

/-- The queue holds jobs of earlier calls, then jobs that keep this entry. Once a put of the
entry was successful the earlier ones are gone. -/
def Settling (entry : OverflowEntry β) (s : OverflowKey ι β) : Prop :=
  ∃ earlier own, s.jobs = earlier ++ own ∧ (∀ job ∈ earlier, ¬ job.Writes entry) ∧
    (∀ job ∈ own, job.Renews entry) ∧
    ∀ completion ∈ s.completions, completion.Confirms entry →
      earlier = [] ∧ s.node = some entry.written

structure Guards (nowMs : ℕ) (entry : OverflowEntry β) (s : OverflowKey ι β) : Prop where
  live : entry.written.isExpired nowMs = false
  resident : ∀ held, s.resident = some held → held = entry
  somewhere : s.resident = none → s.Backed entry
  mirrored : ∀ remote, s.remote = some remote → remote.generation = entry.generation →
    s.Mirrored entry remote
  current : s.gateFree = true → ∀ remote, s.remote = some remote →
    remote.generation = entry.generation
  queue : s.Settling entry
  pending : ∀ pending, s.pending = some pending → pending.mutation ≠ .delete true ∧
    (pending.queued = false → pending.generation = entry.generation)
  expired : ∀ remote ∈ s.expired, remote.generation ≠ entry.generation
  expected : ∀ reader remote, (s.readers reader).expected = some remote →
    remote.generation = entry.generation → s.Backed entry
  fetched : ∀ reader began expected remote, s.readers reader = .fetched began expected remote →
    expected.generation = entry.generation → remote = some entry.written
  missed : ∀ reader, (s.readers reader).waitsSince = some entry →
    entry.written.governance = none → s.Backed entry
  setting : ∀ held forgotten, s.client = .setting held forgotten →
    held = entry ∧ ¬ s.Backed entry ∧ (forgotten = true → s.remote = none)
  deleting : ∀ generation present, s.client ≠ .deleting generation present (some true)

variable {origin : ℕ → Option (OverflowOrigin β)} {next nowMs : ℕ} {s : OverflowKey ι β}
  {entry : OverflowEntry β}

/-- A new set is guarded from its first step on, when no mutation is pending that could be tried
again. -/
theorem setResident_guards (ht : Traced origin next s) {value : β} {governance : Option β}
    {ttlMs : Option ℕ} (hidle : s.client = .idle)
    (hsafe : ∀ pending, s.pending = some pending → pending.queued = true ∧
      ∀ retryOnFailure, pending.mutation ≠ .delete retryOnFailure)
    (hlive : (setEntry nowMs next value governance ttlMs).written.isExpired nowMs = false) :
    Guards nowMs (setEntry nowMs next value governance ttlMs)
      (s.setResident nowMs next value governance ttlMs) := by
  have hfresh : ∀ {generation source}, origin generation = some source → generation ≠ next :=
    fun hsource => ht.ne_next hsource
  have hback : ¬ s.Backed (setEntry nowMs next value governance ttlMs) := by
    rintro ⟨remote, hremote, hgeneration⟩
    obtain ⟨_, hsource⟩ := ht.remote remote hremote
    exact hfresh hsource hgeneration
  unfold setResident
  rw [hidle]
  exact
    { live := hlive
      resident := by rintro _ ⟨⟩; rfl
      somewhere := by rintro ⟨⟩
      mirrored := fun remote hremote hgeneration => absurd ⟨remote, hremote, hgeneration⟩ hback
      current := by rintro ⟨⟩
      queue := by
        refine ⟨s.jobs, [], by simp, ?_, by simp, ?_⟩
        · intro job hjob hwrites
          cases job with
          | put _ generation => exact hfresh (ht.jobs _ hjob) hwrites
          | delete _ _ => exact hwrites
        · intro completion hcompletion hconfirms
          have htraced := ht.completions completion hcompletion
          cases completion with
          | put _ _ _ _ generation _ =>
            obtain ⟨_, hsource, -⟩ := htraced
            exact absurd hconfirms.1 (hfresh hsource)
          | delete _ _ => exact hconfirms.elim
      pending := by
        intro pending hpending
        obtain ⟨hqueued, hmutation⟩ := hsafe pending hpending
        exact ⟨hmutation true, fun hnot => by rw [hqueued] at hnot; cases hnot⟩
      expired := fun remote hremote => (ht.expired remote hremote).elim fun _ => hfresh
      expected := by
        intro reader remote hremote hgeneration
        obtain ⟨_, hsource⟩ := ht.expected reader remote hremote
        exact absurd hgeneration (hfresh hsource)
      fetched := by
        intro reader began expected remote hphase hgeneration
        have hexpected : (s.readers reader).expected = some expected := by
          rw [hphase]
          rfl
        obtain ⟨_, hsource⟩ := ht.expected reader expected hexpected
        exact absurd hgeneration (hfresh hsource)
      missed := by
        intro reader hwaits
        obtain ⟨_, hsource⟩ := ht.waits reader _ hwaits
        exact absurd rfl (hfresh hsource)
      setting := by
        rintro _ _ ⟨⟩
        exact ⟨rfl, hback, by simp⟩
      deleting := by rintro _ _ ⟨⟩ }

theorem setForget_guards (h : Guards nowMs entry s) : Guards nowMs entry s.setForget := by
  unfold setForget
  split
  next held hclient =>
    obtain ⟨rfl, hback, -⟩ := h.setting held false hclient
    exact
      { h with
        somewhere := fun hnone => absurd (h.somewhere hnone) hback
        mirrored := by rintro _ ⟨⟩
        current := by rintro _ _ ⟨⟩
        expected := fun reader remote hremote hgeneration =>
          absurd (h.expected reader remote hremote hgeneration) hback
        missed := fun reader hwaits hopen => absurd (h.missed reader hwaits hopen) hback
        setting := by
          rintro _ _ ⟨⟩
          exact ⟨rfl, by rintro ⟨_, ⟨⟩, _⟩, fun _ => rfl⟩
        deleting := by rintro _ _ ⟨⟩ }
  · exact h

theorem Settling.append (h : s.Settling entry) (hjob : job.Renews entry) :
    Settling entry { s with jobs := s.jobs ++ [job] } := by
  obtain ⟨earlier, own, hjobs, hearlier, hown, hconfirms⟩ := h
  exact ⟨earlier, own ++ [job], by simp [hjobs], hearlier,
    forall_mem_append.mpr ⟨hown, forall_mem_singleton.mpr hjob⟩, hconfirms⟩

theorem Mirrored.append {remote : RemoteKeyMeta ι} (h : s.Mirrored entry remote)
    (hjob : job.Renews entry) : Mirrored entry { s with jobs := s.jobs ++ [job] } remote :=
  { h with jobs := forall_mem_append.mpr ⟨h.jobs, forall_mem_singleton.mpr hjob⟩ }

theorem not_setting_of_gateFree (h : s.gateFree = true) (held : OverflowEntry β)
    (forgotten : Bool) : s.client ≠ .setting held forgotten := by
  intro hclient
  simp [gateFree, hclient] at h

theorem mutation_of_cleanup {mutation : PendingMutation β}
    (h : mutation.origin = some .cleanup) : mutation = .delete true := by
  revert h
  rcases mutation with ⟨_ | _, _, _⟩ | ⟨_ | _⟩ <;> simp [PendingMutation.origin]

/-- The first job leaves the queue, and the node and the completions change with it. What the
job does must not harm the entry: it belongs to the earlier part, or it keeps the entry. -/
theorem Settling.tail (h : s.Settling entry) {jobs : List (KvOverflowJob β)}
    (hjobs : s.jobs = job :: jobs) {s' : OverflowKey ι β} (hjobs' : s'.jobs = jobs)
    (hkept : job.Renews entry → s.node = some entry.written → s'.node = some entry.written)
    (hcompletions : ∀ completion ∈ s'.completions, completion.Confirms entry →
      completion ∈ s.completions ∨ job.Writes entry ∧ s'.node = some entry.written) :
    s'.Settling entry := by
  obtain ⟨earlier, own, hsplit, hearlier, hown, hconfirms⟩ := h
  rcases earlier with _ | ⟨first, earlier⟩
  · rw [hjobs, nil_append] at hsplit
    subst hsplit
    refine ⟨[], jobs, hjobs', by simp, fun j hj => hown j (mem_cons_of_mem _ hj), ?_⟩
    intro completion hmem hconfirm
    refine ⟨rfl, ?_⟩
    rcases hcompletions completion hmem hconfirm with hold | ⟨-, hnode⟩
    · exact hkept (hown job mem_cons_self) (hconfirms completion hold hconfirm).2
    · exact hnode
  · rw [hjobs, cons_append] at hsplit
    obtain ⟨rfl, rfl⟩ := List.cons.inj hsplit
    refine ⟨earlier, own, hjobs', fun j hj => hearlier j (mem_cons_of_mem _ hj), hown, ?_⟩
    intro completion hmem hconfirm
    rcases hcompletions completion hmem hconfirm with hold | ⟨hwrites, -⟩
    · exact absurd (hconfirms completion hold hconfirm).1 (by simp)
    · exact absurd hwrites (hearlier job mem_cons_self)

section

variable (h : Guards nowMs entry s)
include h

theorem setEnqueue_guards : Guards nowMs entry s.setEnqueue := by
  unfold setEnqueue
  split
  next held hclient =>
    obtain ⟨rfl, -, hforgotten⟩ := h.setting held true hclient
    have hnone := hforgotten rfl
    have hjobs : (put held.written held.generation).Renews held := rfl
    exact
      { h with
        mirrored := fun remote hremote hgeneration =>
          { (h.mirrored remote hremote hgeneration).append hjobs with }
        current := by
          intro _ remote hremote
          rw [hnone] at hremote
          cases hremote
        queue := h.queue.append hjobs
        setting := by rintro _ _ ⟨⟩
        deleting := by rintro _ _ ⟨⟩ }
  · exact h

theorem deleteBegin_guards (shard : ι) (generation : ℕ) :
    Guards nowMs entry (s.deleteBegin nowMs shard generation) := by
  unfold deleteBegin
  split
  next hclient =>
    have hjobs : (delete generation true : KvOverflowJob β).Renews entry := rfl
    exact
      { h with
        mirrored := fun remote hremote hgeneration =>
          { (h.mirrored remote hremote hgeneration).append hjobs with }
        current := fun _ => h.current (by simp [gateFree, hclient])
        queue := h.queue.append hjobs
        pending := by
          rintro _ ⟨⟩
          exact ⟨by simp, by rintro ⟨⟩⟩
        setting := by rintro _ _ ⟨⟩
        deleting := by rintro _ _ ⟨⟩ }
  · exact h

theorem generation_of_matches
    (hmatches : s.overflowGenerationMatches generation = true) : generation = entry.generation := by
  cases hresident : s.resident with
  | none => simp [overflowGenerationMatches, hresident] at hmatches
  | some held =>
    obtain rfl := h.resident held hresident
    simpa [overflowGenerationMatches, hresident, eq_comm] using hmatches

theorem Guards.eraseCompletion (index : ℕ) :
    Guards nowMs entry { s with completions := s.completions.eraseIdx index } := by
  obtain ⟨earlier, own, hjobs, hearlier, hown, hconfirms⟩ := h.queue
  exact
    { h with
      mirrored := fun remote hremote hgeneration => { h.mirrored remote hremote hgeneration with }
      queue := ⟨earlier, own, hjobs, hearlier, hown, fun completion hmem =>
        hconfirms completion (mem_of_mem_eraseIdx hmem)⟩ }

/-- A put of this entry that was successful leaves the node with the entry and the queue with
jobs that keep it, so that the new metadata is right. -/
theorem applyPutCompletion_guards (shard : ι)
    {retryValue retryGovernance : Option β} {isProtected : Bool} {expireAtMs : Option ℕ}
    {succeeded : Bool} (hgate : s.gateFree = true)
    (hdata : generation = entry.generation → expireAtMs = entry.written.expireAtMs ∧
      isProtected = entry.written.governance.isSome)
    (hconfirmed : generation = entry.generation → succeeded = true → s.node = some entry.written ∧
      ∀ job ∈ s.jobs, job.Renews entry) :
    Guards nowMs entry (s.applyPutCompletion shard retryValue retryGovernance isProtected
      expireAtMs generation succeeded) := by
  unfold applyPutCompletion
  split
  · exact h
  next hmatches =>
    have hgeneration := generation_of_matches h (by simpa using hmatches)
    obtain ⟨hexpire, hprotect⟩ := hdata hgeneration
    cases succeeded with
    | true =>
      obtain ⟨hnode, hjobs⟩ := hconfirmed hgeneration rfl
      have hbacked : Backed entry
          { s with
            pending := none
            remote := some ⟨shard, expireAtMs, generation, true, isProtected⟩ } :=
        ⟨_, rfl, hgeneration⟩
      exact
        { h with
          somewhere := fun _ => hbacked
          mirrored := by
            rintro _ ⟨⟩ -
            exact ⟨hexpire, fun hp => hprotect ▸ hp, hnode, hjobs⟩
          current := by
            rintro - _ ⟨⟩
            exact hgeneration
          pending := by rintro _ ⟨⟩
          expected := fun _ _ _ _ => hbacked
          missed := fun _ _ _ => hbacked
          setting := fun held forgotten hclient =>
            absurd hclient (not_setting_of_gateFree hgate held forgotten) }
    | false =>
      rw [if_neg Bool.false_ne_true]
      split
      · exact
          { h with
            mirrored := fun remote hremote hremoteGeneration =>
              { h.mirrored remote hremote hremoteGeneration with }
            pending := by
              rintro _ ⟨⟩
              exact ⟨by simp, fun _ => hgeneration⟩ }
      · exact h

/-- The completion of a clean-up delete finds another mutation pending, or none. -/
theorem applyDeleteCompletion_of_cleanup (ht : Traced origin next s)
    (hsource : origin generation = some .cleanup) (succeeded : Bool) :
    s.applyDeleteCompletion generation succeeded = s := by
  unfold applyDeleteCompletion
  split
  · rfl
  next pending hpending =>
    rw [if_pos]
    rintro rfl
    obtain ⟨source, hsource', hmutation⟩ := ht.pending pending hpending
    obtain rfl := Option.some.inj (hsource'.symm.trans hsource)
    exact (h.pending pending hpending).1 (mutation_of_cleanup hmutation)

theorem complete_guards (ht : Traced origin next s) (hlatest : s.latest = some entry)
    (shard : ι) (index : ℕ) :
    Guards nowMs entry (s.complete shard index) := by
  have hrest := h.eraseCompletion index
  have hrestTraced : Traced origin next
      { s with completions := s.completions.eraseIdx index } :=
    { ht with
      completions := fun completion hmem =>
        ht.completions completion (mem_of_mem_eraseIdx hmem) }
  unfold complete
  cases hgate : s.gateFree with
  | false => exact h
  | true =>
    rw [if_neg (by simp)]
    split
    next retryValue retryGovernance isProtected expireAtMs generation succeeded hget =>
      have hmem := mem_of_getElem? hget
      obtain ⟨written, hsource, hexpire, hprotect, -⟩ := ht.completions _ hmem
      refine applyPutCompletion_guards hrest shard hgate ?_ ?_
      · rintro rfl
        obtain ⟨⟩ := Option.some.inj (hsource.symm.trans (ht.latest entry hlatest))
        exact ⟨hexpire, hprotect⟩
      · intro hgeneration hsucceeded
        obtain ⟨earlier, own, hjobs, -, hown, hconfirms⟩ := h.queue
        obtain ⟨rfl, hnode⟩ := hconfirms _ hmem ⟨hgeneration, hsucceeded⟩
        refine ⟨hnode, ?_⟩
        intro job hjob
        rw [hjobs, nil_append] at hjob
        exact hown job hjob
    next generation succeeded hget =>
      rw [applyDeleteCompletion_of_cleanup hrest hrestTraced
        (ht.completions _ (mem_of_getElem? hget))]
      exact hrest
    next => exact h

/-- A failed delete takes at most the pending mark away. -/
theorem applyDeleteCompletion_failed (generation : ℕ) :
    s.applyDeleteCompletion generation false = s ∨
      s.applyDeleteCompletion generation false = { s with pending := none } := by
  unfold applyDeleteCompletion
  split
  · exact .inl rfl
  next pending hpending =>
    split
    · exact .inl rfl
    · rw [if_neg Bool.false_ne_true]
      split
      next hmutation => exact absurd hmutation (h.pending pending hpending).1
      next => exact .inr rfl

theorem deleteEnd_guards : Guards nowMs entry s.deleteEnd := by
  unfold deleteEnd
  split
  next generation present succeeded hclient =>
    cases succeeded with
    | true => exact absurd hclient (h.deleting generation present)
    | false =>
      have hidle : Guards nowMs entry { s with client := .idle } := { h with
          mirrored := fun remote hremote hgeneration => { h.mirrored remote hremote hgeneration with }
          current := fun _ => h.current (by simp [gateFree, hclient])
          setting := by rintro _ _ ⟨⟩
          deleting := by rintro _ _ ⟨⟩ }
      rcases applyDeleteCompletion_failed h generation with hsame | hcleared
      · rw [hsame]
        exact hidle
      · rw [hcleared]
        exact
          { hidle with
            mirrored := fun remote hremote hgeneration =>
              { h.mirrored remote hremote hgeneration with }
            pending := by rintro _ ⟨⟩ }
  · exact h

theorem execute_guards (ht : Traced origin next s) (hlatest : s.latest = some entry)
    (succeeded : Bool)
    (hstill : (s.execute succeeded).latest = some entry) :
    Guards nowMs entry (s.execute succeeded) := by
  have howned : ∀ {written : OverflowValue β}, (put written entry.generation) ∈ s.jobs →
      written = entry.written := by
    intro written hmem
    obtain ⟨⟩ := Option.some.inj ((ht.jobs _ hmem).symm.trans (ht.latest entry hlatest))
    rfl
  unfold execute at hstill ⊢
  split
  · exact h
  next written generation jobs hjobs =>
    have hmem : put written generation ∈ s.jobs := by simp [hjobs]
    have hnode : generation = entry.generation → s.node = some entry.written ∨ succeeded = true →
        (if succeeded then some written else s.node) = some entry.written := by
      rintro rfl hbefore
      rw [howned hmem]
      cases succeeded <;> simp_all
    refine
      { h with
        mirrored := ?_
        queue := h.queue.tail hjobs rfl (fun hrenews hbefore => hnode hrenews (.inl hbefore)) ?_ }
    · intro remote hremote hgeneration
      have hmirrored := h.mirrored remote hremote hgeneration
      exact
        { hmirrored with
          node := hnode (hmirrored.jobs _ hmem) (.inl hmirrored.node)
          jobs := fun j hj => hmirrored.jobs j (by rw [hjobs]; exact mem_cons_of_mem _ hj) }
    · intro completion hcompletion hconfirm
      rcases mem_append.mp hcompletion with hold | hnew
      · exact .inl hold
      · obtain rfl := mem_singleton.mp hnew
        exact .inr ⟨hconfirm.1, hnode hconfirm.1 (.inr hconfirm.2)⟩
  next generation jobs hjobs =>
    cases succeeded with
    | true => simp [hjobs] at hstill
    | false =>
      refine
        { h with
          mirrored := ?_
          current := ?_
          queue := h.queue.tail hjobs rfl (fun _ hbefore => hbefore) fun _ hold _ => .inl hold
          setting := ?_
          deleting := ?_ }
      · intro remote hremote hgeneration
        have hmirrored := h.mirrored remote hremote hgeneration
        exact
          { hmirrored with
            jobs := fun j hj => hmirrored.jobs j (by rw [hjobs]; exact mem_cons_of_mem _ hj) }
      · intro hgate
        refine h.current ?_
        cases hclient : s.client <;> simp_all [gateFree]
      · intro held forgotten hclient
        dsimp only at hclient
        split at hclient
        · cases hclient
        · exact h.setting held forgotten hclient
      · intro own present hclient
        dsimp only at hclient
        split at hclient
        · split_ifs at hclient
          · cases hclient
          · cases hclient
        · exact h.deleting own present hclient
  next generation jobs hjobs =>
    have hmem : delete generation false ∈ s.jobs := by simp [hjobs]
    refine
      { h with
        mirrored := ?_
        queue := h.queue.tail hjobs rfl (fun hrenews => by cases hrenews) ?_ }
    · intro remote hremote hgeneration
      cases (h.mirrored remote hremote hgeneration).jobs _ hmem
    · intro completion hcompletion hconfirm
      rcases mem_append.mp hcompletion with hold | hnew
      · exact .inl hold
      · obtain rfl := mem_singleton.mp hnew
        exact hconfirm.elim

theorem noteRetry_guards : Guards nowMs entry s.noteRetry := by
  unfold noteRetry
  split
  · split_ifs
    · exact h
    · exact
        { h with
          mirrored := fun remote hremote hgeneration =>
            { h.mirrored remote hremote hgeneration with } }
  · exact h

/-- Only the put of the entry itself is ever tried again. -/
theorem retry_guards (ht : Traced origin next s) (hlatest : s.latest = some entry)
    (index : ℕ) : Guards nowMs entry (s.retry index) := by
  unfold retry
  split
  · exact h
  · split
    next candidate hget =>
      obtain ⟨source, hsource, hmutation⟩ := ht.retries candidate (mem_of_getElem? hget)
      unfold enqueuePendingRetry
      split
      · exact h
      next pending hpending =>
        split_ifs with hcurrent
        swap
        · exact h
        simp only [Bool.and_eq_true, decide_eq_true_eq, Bool.not_eq_true'] at hcurrent
        obtain ⟨hcleanup, howned⟩ := h.pending pending hpending
        have hgeneration := hcurrent.1.symm.trans (howned hcurrent.2)
        obtain rfl : source = .set entry.written := by
          rw [hgeneration, ht.latest entry hlatest] at hsource
          exact (Option.some.inj hsource).symm
        split
        next value governance expireAtMs hput =>
          have hjobs : (put ⟨value, governance, expireAtMs⟩
              candidate.generation).Renews entry := hgeneration
          exact
            { h with
              mirrored := fun remote hremote hremoteGeneration =>
                { (h.mirrored remote hremote hremoteGeneration).append hjobs with }
              queue := h.queue.append hjobs
              pending := by
                rintro _ ⟨⟩
                exact ⟨hcleanup, by rintro ⟨⟩⟩ }
        · exact h
        next retryOnFailure hdelete =>
          rw [hdelete] at hmutation
          cases retryOnFailure <;> cases hmutation
    · exact h

/-- Metadata that is found expired is not that of the entry, which is alive. -/
theorem noteExpired_guards :
    Guards nowMs entry (s.noteExpired nowMs) := by
  unfold noteExpired
  split
  next remote hremote =>
    split_ifs with hpassed
    · refine
        { h with
          mirrored := fun m hm hgeneration => { h.mirrored m hm hgeneration with }
          expired := ?_ }
      intro m hm
      rcases mem_append.mp hm with hold | hnew
      · exact h.expired m hold
      · obtain rfl := mem_singleton.mp hnew
        intro hgeneration
        rw [(h.mirrored m hremote hgeneration).expireAtMs] at hpassed
        exact Bool.false_ne_true (h.live.symm.trans hpassed)
    · exact h
  · exact h

section Cleanup

variable [DecidableEq ι] [DecidableEq β]

/-- So the clean-up finds other metadata than it noted. -/
theorem cleanup_eq (shard : ι) (index : ℕ) :
    s.cleanup shard next index = (next, s) := by
  unfold cleanup
  cases hgate : s.gateFree with
  | false => rfl
  | true =>
    rw [if_neg (by simp)]
    split
    next expected hget =>
      unfold cleanupExpired
      rw [if_pos]
      intro hremote
      exact h.expired expected (mem_of_getElem? hget) (h.current hgate expected hremote)
    next => rfl

end Cleanup

theorem evict_guards [DecidableEq ι] (shard : ι)
    (hsafe : s.evictable nowMs shard = true → ∀ remote, s.remote = some remote →
      s.resident.isSome = true → s.overflowGenerationMatches remote.generation = true) :
    Guards nowMs entry (s.evict nowMs shard) := by
  unfold evict
  split_ifs with hevict
  · have hbacked : s.Backed entry := by
      cases hresident : s.resident with
      | none => exact h.somewhere hresident
      | some held =>
        cases hremote : s.remote with
        | none => simp [evictable, hremote] at hevict
        | some remote =>
          have hmatches := hsafe hevict remote hremote (by simp [hresident])
          exact ⟨remote, hremote, generation_of_matches h hmatches⟩
    exact
      { h with
        resident := by rintro _ ⟨⟩
        somewhere := fun _ => hbacked
        mirrored := fun remote hremote hgeneration =>
          { h.mirrored remote hremote hgeneration with } }
  · exact h

theorem purge_eq : s.purge nowMs = s := by
  unfold purge
  rw [if_neg]
  cases hresident : s.resident with
  | none => simp
  | some held =>
    obtain rfl := h.resident held hresident
    simpa using h.live

end
end OverflowKey
end ShardKv
