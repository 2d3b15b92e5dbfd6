import ShardKv.Overflow.MetadataBudget

/-!
# Exactness of the metadata budget

The budget of a store is exact when what is in use is the sum of the charges of the
keys that are resident, in the remote metadata or tracked as pending. It is exact when
the store is opened, and it stays so along a run exactly when every call of the run
is safe.
-/
namespace ShardKv

open OverflowKey KvOverflowMetadataBudget Function List
variable {κ ι β : Type} [DecidableEq κ] [DecidableEq ι] [DecidableEq β]

/-- The store with its budget. -/
structure BudgetedStore (κ ι β : Type) extends KvOverflowStore κ ι β where
  budget : KvOverflowMetadataBudget

inductive BudgetCall (κ ι β : Type)
  | tick (nowMs : ℕ)
  | key (key : κ) (action : BudgetAction ι β)

/-- The steps that may ask the budget for room. -/
def BudgetAction.asksBudget : BudgetAction ι β → Bool
  | .step (.setResident _ _ _ _) => true
  | .synchronize _ => true
  | _ => false

namespace BudgetedStore

variable (options : KvOverflowOptions) (shardOf : κ → ι) (keyLen : κ → ℕ)
  {action : BudgetAction ι β} (store : BudgetedStore κ ι β)

/-- One step on a key that the budget has let pass; the charge is released at its end. -/
def advance (key : κ) (action : BudgetAction ι β) : BudgetedStore κ ι β :=
  let s := store.keys key
  let out := s.budgetStep options (shardOf key) store.nowMs (store.sequence (shardOf key)) action
  { store with
    sequence := Function.update store.sequence (shardOf key) out.1
    keys := Function.update store.keys key out.2
    budget :=
      if s.releases options store.nowMs action then store.budget.release (keyLen key)
      else store.budget }

def apply : BudgetCall κ ι β → BudgetedStore κ ι β
  | .tick nowMs =>
    { store with nowMs := nowMs, keys := fun key => (store.keys key).observe nowMs }
  | .key key action =>
    if (store.keys key).reserves store.nowMs action then
      match store.budget.tryReserve (keyLen key) with
      | none => store
      | some budget => { store with budget := budget }.advance options shardOf keyLen key action
    else store.advance options shardOf keyLen key action

/-- The budget in use is the sum of the charges of the tracked keys, each counted once. -/
def Exact : Prop := Charged (fun key => charge (keyLen key))
    (fun key => (store.keys key).tracked) store.budget.used

/-- A call that the budget turns away does nothing. -/
def Safe : BudgetCall κ ι β → Prop
  | .tick _ => True
  | .key key action =>
    (action.asksBudget = true → store.budget.used + charge (keyLen key) ≤ store.budget.limit) →
      (store.keys key).SafeStep options store.nowMs action

omit [DecidableEq ι] in
theorem asksBudget_of_reserves {s : OverflowKey ι β} {nowMs : ℕ}
    (h : s.reserves nowMs action = true) : action.asksBudget = true := by
  unfold reserves at h
  split at h
  · rfl
  · rfl
  · cases h

/-- A step that may ask for room and does not need to is safe. -/
theorem safeStep_of_not_reserves {s : OverflowKey ι β} {nowMs : ℕ}
    (hasks : action.asksBudget = true) (h : s.reserves nowMs action = false) :
    s.SafeStep options nowMs action := by
  cases action with
  | governedEnd => cases hasks
  | synchronize succeeded =>
    cases succeeded with
    | false => trivial
    | true =>
      intro hgate hlive
      simpa [reserves, hgate, hlive, ← Option.isSome_iff_ne_none] using h
  | step action =>
    cases action with
    | setResident value governance ttlMs admitted =>
      cases admitted with
      | false => trivial
      | true =>
        intro hidle
        have hnew : s.newlyTracked nowMs = false := by
          simpa [reserves, hidle] using h
        intro hres hlive
        simpa [newlyTracked_eq, hlive, or_iff_not_imp_left] using hnew
    | _ => cases hasks

variable {options shardOf keyLen} {key : κ}

/-- A step that was let pass leaves the budget exact just when it is safe. -/
theorem exact_advance_iff {store : BudgetedStore κ ι β} {used : ℕ}
    (h : Charged (fun key => charge (keyLen key)) (fun key => (store.keys key).tracked) used)
    (hused : store.budget.used = used +
      ((store.keys key).reserves store.nowMs action).toNat * charge (keyLen key)) :
    (store.advance options shardOf keyLen key action).Exact keyLen ↔
      (store.keys key).SafeStep options store.nowMs action := by
  have hheld : (fun other => ((store.advance options shardOf keyLen key action).keys other).tracked) =
      Function.update (fun other => (store.keys other).tracked) key
        ((store.keys key).budgetStep options (shardOf key) store.nowMs
          (store.sequence (shardOf key)) action).2.tracked := by
    funext other
    exact apply_update (fun _ s => tracked s) store.keys key _ other
  have hbudget : (store.advance options shardOf keyLen key action).budget.used =
      used + ((store.keys key).reserves store.nowMs action).toNat * charge (keyLen key) -
        ((store.keys key).releases options store.nowMs action).toNat * charge (keyLen key) := by
    rw [← hused]
    simp only [advance]
    split
    · simp [release, *]
    · simp [*]
  rw [Exact, hheld, hbudget]
  refine (h.step_iff (charge_pos _) _ reserves_or_tracked_of_releases).trans ?_
  exact (safeStep_iff _ action).symm

/-- A call leaves an exact budget exact just when it is safe. -/
theorem exact_apply_iff {store : BudgetedStore κ ι β} (h : store.Exact keyLen)
    (call : BudgetCall κ ι β) :
    (store.apply options shardOf keyLen call).Exact keyLen ↔ store.Safe options keyLen call := by
  cases call with
  | tick => exact iff_of_true h trivial
  | key key action =>
    cases hreserves : (store.keys key).reserves store.nowMs action with
    | false =>
      have hadvance : (store.advance options shardOf keyLen key action).Exact keyLen ↔ _ :=
        exact_advance_iff h (by rw [hreserves, Bool.toNat_false, Nat.zero_mul, Nat.add_zero])
      simp only [apply, hreserves, Bool.false_eq_true, if_false, hadvance, Safe]
      refine ⟨fun hsafe _ => hsafe, fun hsafe => ?_⟩
      cases hasks : action.asksBudget with
      | false => exact hsafe (by simp [hasks])
      | true => exact safeStep_of_not_reserves options hasks hreserves
    | true =>
      have hasks := asksBudget_of_reserves hreserves
      by_cases hroom : store.budget.used + charge (keyLen key) ≤ store.budget.limit
      · simp only [apply, hreserves, if_true, tryReserve, hroom, Safe, implies_true, forall_const]
        refine exact_advance_iff h ?_
        rw [hreserves, Bool.toNat_true, Nat.one_mul]
      · refine iff_of_true ?_ fun hlimit => absurd (hlimit hasks) hroom
        simpa only [apply, hreserves, if_true, tryReserve, hroom, if_false] using h

end BudgetedStore

/-- The values that the primary holds when the store is opened over it. What had expired was not
recovered. -/
structure Recovered (κ β : Type) where
  nowMs : ℕ
  entries : List (κ × OverflowEntry β)
  distinct : (entries.map Prod.fst).Nodup
  live : ∀ pair ∈ entries, pair.2.written.isExpired nowMs = false

namespace BudgetedStore

variable (options shardOf keyLen) in
/-- The turn of a key when the store is opened; without room for it the opening fails. -/
def openKey (store : BudgetedStore κ ι β) (key : κ) : Option (BudgetedStore κ ι β) :=
  if (store.keys key).reserves store.nowMs (.synchronize true) &&
      (store.budget.tryReserve (keyLen key)).isNone then none
  else some (store.apply options shardOf keyLen (.key key (.synchronize true)))

/-- A primary with nothing mirrored and nothing charged yet. -/
def primary (recovered : Recovered κ β) (limit : ℕ) : BudgetedStore κ ι β where
  nowMs := recovered.nowMs
  keys key :=
    { resident := recovered.entries.lookup key
      latest := recovered.entries.lookup key }
  budget := ⟨0, limit⟩

variable (options shardOf keyLen) in
/-- `new`, which synchronises every value of the primary before it hands out the store. -/
def opened (recovered : Recovered κ β) (limit : ℕ) : Option (BudgetedStore κ ι β) :=
  (recovered.entries.map Prod.fst).foldlM (openKey options shardOf keyLen) (primary recovered limit)

/-- What holds while the keys of `rest` are still to be synchronised: those that were are charged
for the metadata they have got. -/
structure Opening (keyLen : κ → ℕ) (rest : List κ) (store : BudgetedStore κ ι β) : Prop where
  charged : Charged (fun key => charge (keyLen key))
    (fun key => (store.keys key).remote.isSome) store.budget.used
  fresh : ∀ key ∈ rest, (store.keys key).remote = none
  settled : ∀ key, key ∉ rest → (store.keys key).resident.isSome = true →
    (store.keys key).remote.isSome = true
  live : ∀ key, (store.keys key).resident.isSome = true → (store.keys key).isLive store.nowMs = true
  quiet : ∀ key, (store.keys key).pending = none ∧ (store.keys key).client = .idle

/-- What the turn of a key does that has no metadata yet: nothing if it holds no value, and
otherwise it gives the key metadata and charges it. -/
theorem openKey_cases {store after : BudgetedStore κ ι β}
    (h : openKey options shardOf keyLen store key = some after)
    (hidle : (store.keys key).client = .idle) (hremote : (store.keys key).remote = none)
    (hlive : (store.keys key).resident.isSome = true → (store.keys key).isLive store.nowMs = true) :
    after.nowMs = store.nowMs ∧
      ((store.keys key).resident = none ∧ after.keys = store.keys ∧ after.budget = store.budget ∨
        ∃ node remote, after.keys = Function.update store.keys key
            { store.keys key with node := node, remote := some remote } ∧
          after.budget.used = store.budget.used + charge (keyLen key)) := by
  have hgate : (store.keys key).gateFree = true := by simp [gateFree, hidle]
  cases hresident : (store.keys key).resident with
  | none =>
    have hdead : (store.keys key).isLive store.nowMs = false := by
      simp [isLive, hresident]
    simp only [openKey, apply, reserves, hdead, Bool.and_false, Bool.false_and,
      Bool.false_eq_true, if_false, Option.some.injEq] at h
    subst h
    refine ⟨rfl, .inl ⟨rfl, ?_, ?_⟩⟩
    · simp [advance, budgetStep, OverflowKey.synchronize, hgate, hresident]
    · simp [advance, releases]
  | some entry =>
    have halive := hlive (by rw [hresident]; rfl)
    have hunexpired : entry.written.isExpired store.nowMs = false := by
      simpa [isLive, hresident] using halive
    have hreserves : (store.keys key).reserves store.nowMs (.synchronize true) = true := by
      simp [reserves, hgate, halive, hremote]
    by_cases hroom : store.budget.used + charge (keyLen key) ≤ store.budget.limit
    · simp only [openKey, apply, hreserves, tryReserve, hroom, if_true,
        Option.isNone_some, Bool.and_false, Bool.false_eq_true, if_false, Option.some.injEq] at h
      subst h
      refine ⟨rfl, .inr ⟨some entry.written, ⟨shardOf key, entry.written.expireAtMs,
        store.sequence (shardOf key), true, entry.written.governance.isSome⟩, ?_, ?_⟩⟩
      · simp [advance, budgetStep, OverflowKey.synchronize, hgate, hresident, hunexpired]
      · simp [advance, releases]
    · simp [openKey, hreserves, tryReserve, hroom] at h

theorem Opening.openKey {store after : BudgetedStore κ ι β} {rest : List κ}
    (hopening : Opening keyLen (key :: rest) store) (hkey : key ∉ rest)
    (h : openKey options shardOf keyLen store key = some after) : Opening keyLen rest after := by
  have hremote := hopening.fresh key mem_cons_self
  obtain ⟨hnow, ⟨hresident, hkeys, hbudget⟩ | ⟨node, remote, hkeys, hused⟩⟩ :=
    openKey_cases h (hopening.quiet key).2 hremote (hopening.live key)
  · refine ⟨?_, ?_, ?_, ?_, ?_⟩ <;> simp only [hkeys, hbudget, hnow]
    · exact hopening.charged
    · exact fun other hmem => hopening.fresh other (mem_cons_of_mem key hmem)
    · intro other hmem hsome
      refine hopening.settled other ?_ hsome
      rintro (_ | ⟨_, hin⟩)
      · rw [hresident] at hsome
        cases hsome
      · exact hmem hin
    · exact hopening.live
    · exact hopening.quiet
  · refine ⟨?_, ?_, ?_, ?_, ?_⟩ <;> simp only [hkeys, hused, hnow]
    · have hheld : (fun other => (Function.update store.keys key
          { store.keys key with node := node, remote := some remote } other).remote.isSome) =
          Function.update (fun other => (store.keys other).remote.isSome) key true := by
        funext other
        exact apply_update (fun _ s => Option.isSome (OverflowKey.remote s)) store.keys key _ other
      rw [hheld]
      refine (hopening.charged.update_iff key true _).mpr ?_
      simp [hremote]
    · intro other hmem
      rw [update_of_ne (by rintro rfl; exact hkey hmem)]
      exact hopening.fresh other (mem_cons_of_mem key hmem)
    · intro other hmem hsome
      by_cases hother : other = key
      · subst hother
        rw [update_self]
        rfl
      · rw [update_of_ne hother] at hsome ⊢
        exact hopening.settled other (by simp [hother, hmem]) hsome
    · intro other hsome
      by_cases hother : other = key
      · subst hother
        rw [update_self] at hsome ⊢
        exact hopening.live other hsome
      · rw [update_of_ne hother] at hsome ⊢
        exact hopening.live other hsome
    · intro other
      by_cases hother : other = key
      · subst hother
        rw [update_self]
        exact hopening.quiet other
      · rw [update_of_ne hother]
        exact hopening.quiet other

theorem Opening.foldlM {rest : List κ} (hdistinct : rest.Nodup) :
    ∀ {store after : BudgetedStore κ ι β}, Opening keyLen rest store →
      rest.foldlM (BudgetedStore.openKey options shardOf keyLen) store = some after →
        Opening keyLen [] after := by
  induction rest with
  | nil =>
    rintro store after hopening h
    cases h
    exact hopening
  | cons key rest ih =>
    intro store after hopening h
    obtain ⟨hkey, hrest⟩ := nodup_cons.mp hdistinct
    obtain ⟨between, hfirst, hothers⟩ := Option.bind_eq_some_iff.mp h
    exact ih hrest (hopening.openKey hkey hfirst) hothers

omit [DecidableEq κ] [DecidableEq ι] [DecidableEq β] in
theorem Opening.exact {store : BudgetedStore κ ι β} (h : Opening keyLen [] store) :
    store.Exact keyLen := by
  have hheld : (fun key => (store.keys key).tracked) =
      fun key => (store.keys key).remote.isSome := by
    funext key
    have hsettled := h.settled key not_mem_nil
    have hpending := (h.quiet key).1
    cases hresident : (store.keys key).resident.isSome <;>
      cases hremote : (store.keys key).remote.isSome <;>
      simp_all [tracked, tracksPending]
  rw [Exact, hheld]
  exact h.charged

omit [DecidableEq ι] [DecidableEq β] in
theorem mem_entries_of_primary {recovered : Recovered κ β} {limit : ℕ} {entry : OverflowEntry β}
    (h : ((primary recovered limit : BudgetedStore κ ι β).keys key).resident = some entry) :
    (key, entry) ∈ recovered.entries := by
  obtain ⟨before, after, heq, -⟩ := lookup_eq_some_iff.mp h
  rw [heq]
  exact mem_append_right before mem_cons_self

omit [DecidableEq ι] [DecidableEq β] in
theorem primary_opening (recovered : Recovered κ β) (limit : ℕ) :
    Opening keyLen (recovered.entries.map Prod.fst)
      (primary recovered limit : BudgetedStore κ ι β) where
  charged := charged_zero fun _ => rfl
  fresh _ _ := rfl
  settled key hmem hsome := by
    obtain ⟨entry, hentry⟩ := Option.isSome_iff_exists.mp hsome
    exact absurd (mem_map.mpr ⟨_, mem_entries_of_primary hentry, rfl⟩) hmem
  live key hsome := by
    obtain ⟨entry, hentry⟩ := Option.isSome_iff_exists.mp hsome
    have hlive : entry.written.isExpired (primary recovered limit : BudgetedStore κ ι β).nowMs =
        false := recovered.live _ (mem_entries_of_primary hentry)
    simpa [isLive, hentry] using hlive
  quiet _ := ⟨rfl, rfl⟩

variable (options shardOf) in
theorem safeRun_iff_exact {store : BudgetedStore κ ι β} (hexact : store.Exact keyLen)
    (calls : List (BudgetCall κ ι β)) :
    SafeRun (apply options shardOf keyLen) (Safe options keyLen) store calls ↔
      ∀ front, front <+: calls → (front.foldl (apply options shardOf keyLen) store).Exact keyLen :=
  safeRun_iff_forall_good (fun _ h => h) (fun _ call h hsafe => (exact_apply_iff h call).mpr hsafe)
    (fun _ call h hsafe hafter => hsafe ((exact_apply_iff h call).mp hafter)) calls store hexact

/-- The metadata budget is exact along the runs of safe calls, and along no others. When a
run of safe calls has left no key tracked, everything has been released. -/
theorem metadataBudget_exact_iff (options : KvOverflowOptions) (shardOf : κ → ι) (keyLen : κ → ℕ)
    (recovered : Recovered κ β) (limit : ℕ) (store : BudgetedStore κ ι β)
    (hopened : opened options shardOf keyLen recovered limit = some store)
    (calls : List (BudgetCall κ ι β)) :
    (SafeRun (apply options shardOf keyLen) (Safe options keyLen) store calls ↔
      ∀ front, front <+: calls → (front.foldl (apply options shardOf keyLen) store).Exact keyLen) ∧
    (SafeRun (apply options shardOf keyLen) (Safe options keyLen) store calls →
      (∀ key, ((calls.foldl (apply options shardOf keyLen) store).keys key).tracked = false) →
        (calls.foldl (apply options shardOf keyLen) store).budget.used = 0) := by
  -- the budget is exact when the store is handed out
  have hfirst := ((primary_opening recovered limit).foldlM recovered.distinct hopened).exact
  have hiff := safeRun_iff_exact options shardOf hfirst calls
  refine ⟨hiff, fun hrun hgone => ?_⟩
  have hexact := hiff.mp hrun calls (prefix_refl calls)
  exact hexact.eq_zero hgone

instance [Inhabited ι] {s : OverflowKey ι β} {nowMs : ℕ} :
    Decidable (s.SafeStep options nowMs action) :=
  have : Decidable (s.Balanced options default nowMs 0 action) := Nat.decEq _ _
  decidable_of_iff (s.Balanced options default nowMs 0 action) (safeStep_iff 0 action).symm

instance [Inhabited ι] (store : BudgetedStore κ ι β) :
    ∀ call, Decidable (Safe options keyLen store call)
  | .tick _ => inferInstanceAs (Decidable True)
  | .key _ _ => inferInstanceAs (Decidable ((_ → _) → _))

def recoveredValue : Recovered Bool ℕ :=
  ⟨0, [(true, ⟨⟨7, none, none⟩, 0⟩)], nodup_singleton _, forall_mem_singleton.mpr rfl⟩

def recoveredStore : BudgetedStore Bool Unit ℕ :=
  (opened {} (fun _ => ()) (fun _ => 3) recoveredValue 400).getD (primary recoveredValue 400)

def actionsOn (key : Bool) (actions : List (KeyAction ℕ)) : List (BudgetCall Bool Unit ℕ) :=
  actions.map fun action => .key key (.step action)

/-- A value is set with a deadline, the recovered one is deleted, and the other one expires and
is cleaned up. -/
def deleteAndExpire : List (BudgetCall Bool Unit ℕ) :=
  actionsOn false [.setResident 8 none (some 5) true, .setForget, .setEnqueue, .execute true,
      .complete 0] ++
    actionsOn true [.deleteBegin, .execute true, .deleteEnd] ++
    .tick 5 :: actionsOn false [.noteExpired, .purge, .cleanup 0, .execute true, .complete 0]

theorem metadataBudget_exact_iff_deleteAndExpire :
    recoveredStore.budget.used = 131 ∧
      (∀ front, front <+: deleteAndExpire →
        (front.foldl (apply {} (fun _ => ()) fun _ => 3) recoveredStore).Exact fun _ => 3) ∧
      (deleteAndExpire.foldl (apply {} (fun _ => ()) fun _ => 3) recoveredStore).budget.used = 0 := by
  have hrun : SafeRun (apply {} (fun _ => ()) fun _ => 3) (Safe {} fun _ => 3) recoveredStore
      deleteAndExpire := by decide +kernel
  obtain ⟨hexact, hzero⟩ := metadataBudget_exact_iff {} (fun _ => ()) (fun _ => 3) recoveredValue 400
    recoveredStore rfl deleteAndExpire
  exact ⟨rfl, hexact.mp hrun, hzero hrun (by decide +kernel)⟩

/-- A store without recovered values, with room for one key. -/
def emptyStore : BudgetedStore Unit Unit ℕ :=
  primary ⟨0, [], List.nodup_nil, fun _ h => (nomatch h)⟩ 200

def setCalls (governance : Option ℕ) : List (BudgetCall Unit Unit ℕ) :=
  [.key () (.step (.setResident 7 governance none true)), .key () (.step .setForget),
    .key () (.step .setEnqueue)]

/-- A delete that comes before the completion of the set has been applied. The completion is then
stale and has no effect. -/
def deleteCalls : List (BudgetCall Unit Unit ℕ) :=
  [.key () (.step .deleteBegin), .key () (.step (.execute true)), .key () (.step (.execute true)),
    .key () (.step .deleteEnd), .key () (.step (.complete 0))]

/-- The delete of a protected value does not see it and releases nothing: with no key tracked and
no work left, its charge is still in use, and no other key finds room. -/
theorem protectedDelete_leaks :
    let store := (setCalls (some 1) ++ deleteCalls).foldl (apply {} (fun _ => ()) fun _ => 3)
      emptyStore
    (store.keys ()).tracked = false ∧ (store.keys ()).jobs = [] ∧
      (store.keys ()).completions = [] ∧ (store.keys ()).client = .idle ∧
      store.budget.used = 131 ∧ store.budget.tryReserve 3 = none ∧ ¬ store.Exact fun _ => 3 := by
  intro store
  have hgone : (store.keys ()).tracked = false := by decide
  have hused : store.budget.used = 131 := by decide
  refine ⟨hgone, by decide, by decide, by decide, hused, by decide, fun hexact => ?_⟩
  have hzero := hexact.eq_zero fun _ => hgone
  omega

end BudgetedStore
end ShardKv
