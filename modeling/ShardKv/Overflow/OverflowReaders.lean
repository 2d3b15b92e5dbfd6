import ShardKv.Overflow.OverflowGuard

/-!
# Reads of a guarded key

A `get` looks at the primary, at the metadata, at the node and at the primary
again, and anything may happen in between. As long as one set stays the latest,
a `get` that missed it in the primary finds metadata for it ever after, and what
it fetched under that metadata is the value of the set.
-/
namespace ShardKv

variable {ι β : Type}

/-- A `get` that saw one set as the latest when it began and when it ended has returned its
value, unless that is protected or the store must not look for it. -/
def FaultIn.Answered (fetchOnMiss : Bool) : FaultIn ι β → Prop
  | .finished (some began) (some ended) result =>
    began = ended → ended.written.governance = none →
      result = some ended.written.value ∨ fetchOnMiss = false ∧ result = none
  | _ => True

namespace OverflowKey

variable {nowMs : ℕ} {s : OverflowKey ι β} {entry : OverflowEntry β}

section

variable (h : Guards nowMs entry s)
include h

theorem Guards.setReader (reader : ℕ) {phase : FaultIn ι β}
    (hexpected : ∀ remote, phase.expected = some remote → remote.generation = entry.generation →
      s.Backed entry)
    (hfetched : ∀ began expected remote, phase = .fetched began expected remote →
      expected.generation = entry.generation → remote = some entry.written)
    (hmissed : phase.waitsSince = some entry → entry.written.governance = none → s.Backed entry) :
    Guards nowMs entry (s.setReader reader phase) := by
  exact
    { h with
      mirrored := fun remote hremote hgeneration => { h.mirrored remote hremote hgeneration with }
      expected := setReader_cases (P := fun phase => ∀ remote, phase.expected = some remote →
        remote.generation = entry.generation → s.Backed entry) hexpected h.expected
      fetched := setReader_cases (P := fun phase => ∀ began expected remote,
        phase = .fetched began expected remote → expected.generation = entry.generation →
          remote = some entry.written) hfetched h.fetched
      missed := setReader_cases (P := fun phase => phase.waitsSince = some entry →
        entry.written.governance = none → s.Backed entry) hmissed h.missed }

theorem Guards.finish (reader : ℕ) (began ended : Option (OverflowEntry β)) (result : Option β) :
    Guards nowMs entry (s.setReader reader (.finished began ended result)) :=
  h.setReader reader (by rintro _ ⟨⟩) (by rintro _ _ _ ⟨⟩) (by rintro ⟨⟩)

/-- The `get` of a reader goes on waiting for what it waited for. -/
theorem Guards.waitsSince {reader : ℕ} {began : Option (OverflowEntry β)}
    (hphase : (s.readers reader).waitsSince = began) :
    began = some entry → entry.written.governance = none → s.Backed entry :=
  fun hbegan => h.missed reader (hphase.trans hbegan)

/-- The primary shows nothing but the entry. -/
theorem innerGet_eq_some {value : β} (hget : s.innerGet nowMs = some value) :
    value = entry.written.value := by
  cases hresident : s.resident with
  | none => simp [innerGet, hresident] at hget
  | some held =>
    obtain rfl := h.resident held hresident
    simp only [innerGet, hresident, Option.bind_some, Option.ite_none_left_eq_some,
      Option.some.injEq] at hget
    exact hget.2.symm

/-- When it shows nothing, an open entry is backed. -/
theorem backed_of_innerGet (hget : s.innerGet nowMs = none)
    (hopen : entry.written.governance = none) : s.Backed entry := by
  cases hresident : s.resident with
  | none => exact h.somewhere hresident
  | some held =>
    obtain rfl := h.resident held hresident
    simp [innerGet, hresident, hopen, h.live] at hget

theorem nodeGet_eq (hbacked : s.Backed entry) : s.nodeGet nowMs = some entry.written := by
  obtain ⟨remote, hremote, hgeneration⟩ := hbacked
  simp [nodeGet, (h.mirrored remote hremote hgeneration).node, h.live]

theorem ReaderStep.guards {s' : OverflowKey ι β} {reader : ℕ} {fetchOnMiss : Bool}
    (hstep : s.ReaderStep nowMs reader fetchOnMiss s') : Guards nowMs entry s' := by
  obtain ⟨phase, hmove, rfl⟩ := hstep
  cases hmove with
  | stay =>
    exact h.setReader reader (h.expected reader) (h.fetched reader) (h.missed reader)
  | missed hget =>
    refine h.setReader reader (by rintro _ ⟨⟩) (by rintro _ _ _ ⟨⟩) ?_
    exact fun _ hopen => backed_of_innerGet h hget hopen
  | again hphase =>
    exact h.setReader reader (by rintro _ ⟨⟩) (by rintro _ _ _ ⟨⟩)
      (h.waitsSince (by rw [hphase]; rfl))
  | expecting hphase hremote | fetching hphase hremote =>
    refine h.setReader reader ?_ (by rintro _ _ _ ⟨⟩) (h.waitsSince (by rw [hphase]; rfl))
    rintro _ ⟨⟩ hgeneration
    exact ⟨_, hremote, hgeneration⟩
  | fetched hphase =>
    have hbacked := h.expected reader _ (by rw [hphase]; rfl)
    refine h.setReader reader ?_ ?_ (h.waitsSince (by rw [hphase]; rfl))
    · rintro _ ⟨⟩
      exact hbacked
    · rintro _ _ _ ⟨⟩ hgeneration
      exact nodeGet_eq h (hbacked hgeneration)
  | _ => exact h.setReader reader (by rintro _ ⟨⟩) (by rintro _ _ _ ⟨⟩) (by rintro ⟨⟩)

/-- Under the key gate the metadata is that of the entry, and so is what was fetched under it. -/
theorem fetched_eq (hgate : s.gateFree = true) {reader : ℕ} {began : Option (OverflowEntry β)}
    {expected : RemoteKeyMeta ι} {remote : Option (OverflowValue β)}
    (hphase : s.readers reader = .fetched began expected remote)
    (hcurrent : s.remote = some expected) :
    remote = some entry.written ∧ s.Mirrored entry expected ∧
      expected.generation = entry.generation := by
  have hgeneration := h.current hgate expected hcurrent
  exact ⟨h.fetched reader began expected remote hphase hgeneration,
    h.mirrored expected hcurrent hgeneration, hgeneration⟩

/-- Metadata that was found to be about a protected value says so from then on. -/
theorem Guards.protect (hgate : s.gateFree = true) {expected : RemoteKeyMeta ι}
    (hcurrent : s.remote = some expected) (hprotected : entry.written.governance.isSome = true) :
    Guards nowMs entry { s with remote := some { expected with isProtected := true } } := by
  have hgeneration := h.current hgate expected hcurrent
  have hbacked : Backed entry { s with remote := some { expected with isProtected := true } } :=
    ⟨_, rfl, hgeneration⟩
  exact
    { h with
      somewhere := fun _ => hbacked
      mirrored := by
        rintro _ ⟨⟩ -
        exact { h.mirrored expected hcurrent hgeneration with isProtected := fun _ => hprotected }
      current := by
        rintro - _ ⟨⟩
        exact hgeneration
      expected := fun _ _ _ _ => hbacked
      missed := fun _ _ _ => hbacked
      setting := fun held forgotten hclient =>
        absurd hclient (not_setting_of_gateFree hgate held forgotten) }

/-- A fetched value goes into the primary as the entry it was written as. -/
theorem Guards.load : Guards nowMs entry { s with resident := some entry } := { h with
    resident := by rintro _ ⟨⟩; rfl
    somewhere := by rintro ⟨⟩
    mirrored := fun remote hremote hgeneration => { h.mirrored remote hremote hgeneration with } }

theorem readEnd_guards [DecidableEq ι] (forgetRemoteMisses : Bool) (reader : ℕ) (admitted : Bool) :
    Guards nowMs entry (s.readEnd nowMs forgetRemoteMisses reader admitted) := by
  unfold readEnd
  cases hgate : s.gateFree with
  | false => exact h
  | true =>
    rw [if_neg (by simp)]
    split
    next began expected remote hphase =>
      split
      · exact h.finish reader _ _ _
      · split
        · exact h.setReader reader (by rintro _ ⟨⟩) (by rintro _ _ _ ⟨⟩)
            (h.waitsSince (by rw [hphase]; rfl))
        next hcurrent =>
          obtain ⟨rfl, hmirrored, hgeneration⟩ := fetched_eq h hgate hphase (not_not.mp hcurrent)
          dsimp only
          split_ifs with hprotected
          · exact (h.protect hgate (not_not.mp hcurrent) hprotected).finish reader _ _ _
          · rw [hmirrored.expireAtMs, hgeneration]
            exact h.load.finish reader _ _ _
          · exact h.finish reader _ _ _
    · exact h

end

section Answers

variable {fetchOnMiss : Bool}

theorem answered_setReader (h : ∀ reader, (s.readers reader).Answered fetchOnMiss) (reader : ℕ)
    {phase : FaultIn ι β} (hphase : phase.Answered fetchOnMiss) (other : ℕ) :
    ((s.setReader reader phase).readers other).Answered fetchOnMiss :=
  setReader_cases (P := FaultIn.Answered fetchOnMiss) hphase h other

theorem answered_finished {began ended : Option (OverflowEntry β)} {result : Option β}
    (h : ∀ entry, began = some entry → ended = some entry → entry.written.governance = none →
      result = some entry.written.value ∨ fetchOnMiss = false ∧ result = none) :
    (FaultIn.finished began ended result : FaultIn ι β).Answered fetchOnMiss := by
  rcases began with _ | began
  · trivial
  · rcases ended with _ | ended
    · trivial
    · rintro rfl
      exact h began rfl rfl

variable (hguards : ∀ entry, s.latest = some entry → Guards nowMs entry s)
  (h : ∀ reader, (s.readers reader).Answered fetchOnMiss)

include hguards

/-- A value that the primary shows is the right answer. -/
theorem answered_innerGet {value : β} (hget : s.innerGet nowMs = some value)
    (began : Option (OverflowEntry β)) :
    (FaultIn.finished began s.latest (some value) : FaultIn ι β).Answered fetchOnMiss := by
  refine answered_finished ?_
  intro entry _ hlatest _
  exact .inl (congrArg some (innerGet_eq_some (hguards entry hlatest) hget))

include h

theorem ReaderStep.answered {s' : OverflowKey ι β} {reader : ℕ}
    (hstep : s.ReaderStep nowMs reader fetchOnMiss s') (other : ℕ) :
    (s'.readers other).Answered fetchOnMiss := by
  obtain ⟨phase, hmove, rfl⟩ := hstep
  refine answered_setReader h reader ?_ other
  cases hmove with
  | stay => exact h reader
  | found began hget => exact answered_innerGet hguards hget began
  | unfetched hfetch => exact answered_finished fun _ _ _ _ => .inr ⟨hfetch, rfl⟩
  | hidden hphase hhidden =>
    -- the metadata of an open set that stayed the latest is there, and does not hide it
    refine answered_finished fun entry hbegan hlatest hopen => ?_
    have hentry := hguards entry hlatest
    obtain ⟨remote, hremote, hgeneration⟩ := hentry.waitsSince (by rw [hphase]; rfl) hbegan hopen
    have hsome := (hentry.mirrored _ hremote hgeneration).isProtected (hhidden remote hremote)
    simp [hopen] at hsome
  | _ => trivial

theorem readEnd_answered [DecidableEq ι] (forgetRemoteMisses : Bool) (reader : ℕ)
    (admitted : Bool) (other : ℕ) :
    ((s.readEnd nowMs forgetRemoteMisses reader admitted).readers other).Answered fetchOnMiss := by
  unfold readEnd
  cases hgate : s.gateFree with
  | false => exact h other
  | true =>
    rw [if_neg (by simp)]
    split
    next began expected remote hphase =>
      split
      next value hget =>
        exact answered_setReader h reader (answered_innerGet hguards hget _) other
      · split
        · exact answered_setReader h reader (by trivial) other
        next hcurrent =>
          have hfetched : ∀ entry, s.latest = some entry → remote = some entry.written :=
            fun entry hlatest =>
              (fetched_eq (hguards entry hlatest) hgate hphase (not_not.mp hcurrent)).1
          rcases remote with _ | remote
          · -- a miss cannot be, while the set that the metadata is about is owed
            have hmiss : (FaultIn.finished began s.latest none : FaultIn ι β).Answered
              fetchOnMiss := by
              refine answered_finished ?_
              intro entry _ hlatest _
              exact absurd (hfetched entry hlatest) (by simp)
            dsimp only
            split_ifs
            · exact answered_setReader h reader hmiss other
            · exact answered_setReader h reader hmiss other
          · dsimp only
            split_ifs with hprotected
            · refine answered_setReader h reader (answered_finished ?_) other
              intro entry _ hlatest hopen
              obtain rfl := Option.some.inj (hfetched entry hlatest)
              simp [hopen] at hprotected
            all_goals
              refine answered_setReader h reader (answered_finished ?_) other
              intro entry _ hlatest _
              obtain rfl := Option.some.inj (hfetched entry hlatest)
              exact .inl rfl
    · exact h other

end Answers
end OverflowKey
end ShardKv
