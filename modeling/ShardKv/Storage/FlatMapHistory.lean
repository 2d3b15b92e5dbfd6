import ShardKv.Foundations.History
import ShardKv.Storage.FlatMapAccounting

/-!
# Whole histories of the flat map

A history is a list of calls, each with the answers it got from outside. Every
call keeps the counters exact, except that the hot setter overwrites without
looking at the remote table: the counters stay exact along a history as long as
no hot set hits a key that is remote. Where they are exact and no entry carries
a deadline, ignoring deadlines changes no answer.
-/
namespace ShardKv

inductive FlatMapOp
  | setBytes (key value : Bytes) (governance : Option Bytes) (expireAtMs : Option ℕ)
  | setHashed (key value : Bytes) (expireAtMs : Option ℕ)
  | setSlice (key value : Bytes) (expireAtMs : Option ℕ)
  | setSliceNoTtl (key value : Bytes)
  | setTaggedNoTtlLocal (key value : Bytes)
  | setTaggedNoTtlHot (key value : Bytes)
  | setSemantic (key value : Bytes) (tokenBytes : ℕ) (governance : Option Bytes)
      (expireAtMs : Option ℕ)
  | transform (key : Bytes) (clearTtl : Bool) (transform : Option Bytes → Except Unit (ℕ × Bytes))
  | update (key : Bytes) (isUnique : Bool) (update : FlatMap.SliceUpdate)
  | getAndExpire (key : Bytes) (expireAtMs : ℕ)
  | expire (key : Bytes) (expireAtMs : ℕ)
  | persist (key : Bytes)
  | delete (key : Bytes)
  | removeValue (key : Bytes)
  | get (key : Bytes)
  | getRef (key : Bytes)
  | exists (key : Bytes)
  | entryExpireAt (key : Bytes)
  | ttl (key : Bytes) (seconds : Bool)
  | governedGet (key : Bytes) (authorize : Option Bytes → Bool)
  | prepareFault (key : Bytes) (allowProtected : Bool)
  | finishFault (plan : ObjectFaultPlan) (result : Except Unit Bytes)
  | completions
  | maintenance
  | evictOne
  | configureMemory (limit : Option ℕ) (hasEvictionPolicy : Bool)
  | configureOverflow (runtime : Option ObjectOverflowRuntime) (sameInstance : Bool)

/-- A call with its time and the answers of its surroundings. -/
structure FlatMapCall where
  op : FlatMapOp
  nowMs : ℕ := 0
  outside : Outside := {}

namespace FlatMapCall

variable (map : FlatMap)

def apply (call : FlatMapCall) : FlatMap :=
  match call.op with
  | .setBytes key value governance expireAtMs =>
    map.setBytesHashedWithGovernanceOption call.outside key value governance expireAtMs call.nowMs
  | .setHashed key value expireAtMs => map.setHashed call.outside key value expireAtMs call.nowMs
  | .setSlice key value expireAtMs =>
    map.setSliceHashed call.outside key value expireAtMs call.nowMs
  | .setSliceNoTtl key value => map.setSliceHashedNoTtl call.outside key value
  | .setTaggedNoTtlLocal key value => map.setSliceHashedTaggedNoTtlLocal key value
  | .setTaggedNoTtlHot key value => map.setSliceHashedTaggedNoTtlHot key value
  | .setSemantic key value tokenBytes governance expireAtMs =>
    map.setSemanticSliceHashedInner call.outside key value tokenBytes governance expireAtMs
      call.nowMs
  | .transform key clearTtl transform =>
    (map.transformValueHashed call.outside key call.nowMs clearTtl transform).2
  | .update key isUnique update => (map.updateValueHashedNoTtl key isUnique update).2
  | .getAndExpire key expireAtMs =>
    (map.getValueBytesHashedAndExpire key expireAtMs call.nowMs).2
  | .expire key expireAtMs => (map.expire key expireAtMs call.nowMs).2
  | .persist key => (map.persist key call.nowMs).2
  | .delete key => (map.deleteHashed key).2
  | .removeValue key => (map.removeValueHashed call.outside key call.nowMs).2
  | .get key => (map.get call.outside key call.nowMs).2
  | .getRef key => (map.getRefHashed key call.nowMs).2
  | .exists key => (map.exists key call.nowMs).2
  | .entryExpireAt key => (map.entryExpireAtHashed key call.nowMs).2
  | .ttl key seconds => (map.ttlOf key call.nowMs seconds).2
  | .governedGet key authorize =>
    (map.getValueBytesHashedWithGovernanceFilter call.outside key call.nowMs authorize).2
  | .prepareFault key allowProtected =>
    (map.prepareObjectFaultHashed call.outside key call.nowMs allowProtected).2
  | .finishFault plan result => (map.finishObjectFault call.outside plan result call.nowMs).2
  | .completions => map.processObjectOverflowCompletions call.outside call.nowMs
  | .maintenance => (map.processMaintenance call.outside call.nowMs).2
  | .evictOne => (map.evictOneWithPolicy call.outside call.nowMs).2
  | .configureMemory limit hasEvictionPolicy =>
    map.configureMemoryPolicy call.outside limit hasEvictionPolicy call.nowMs
  | .configureOverflow runtime sameInstance =>
    (map.configureObjectOverflow call.outside runtime sameInstance call.nowMs).2

/-- A hot set must not hit a key with a remote copy; every other call is safe. -/
def Safe (call : FlatMapCall) : Prop :=
  match call.op with
  | .setTaggedNoTtlHot key _ => map.remoteEntries.lookup key = none
  | _ => True

variable (calls : List FlatMapCall)

def run : FlatMap := calls.foldl apply map

open FlatMap

theorem apply_accounted {map : FlatMap} {call : FlatMapCall} (h : Accounted map)
    (hsafe : call.Safe map) : Accounted (call.apply map) := by
  obtain ⟨op, nowMs, outside⟩ := call
  cases op with
  | setBytes => exact setReplacing_accounted outside nowMs h ..
  | setHashed => exact setReplacing_accounted outside nowMs h _ none _
  | setSlice => exact setSliceHashed_accounted outside nowMs h ..
  | setSliceNoTtl =>
    exact enforceMemoryLimit_accounted outside 0 (setSliceHashedTaggedNoTtlLocal_accounted h _)
  | setTaggedNoTtlLocal => exact setSliceHashedTaggedNoTtlLocal_accounted h _
  | setTaggedNoTtlHot => exact overwriteNoTtl_accounted h hsafe _
  | setSemantic => exact setSemanticSliceHashedInner_accounted outside nowMs h ..
  | transform => exact transformValueHashed_accounted outside nowMs h ..
  | update => exact updateValueHashedNoTtl_accounted h ..
  | getAndExpire => exact getValueBytesHashedAndExpire_accounted nowMs h _
  | expire => exact expire_accounted nowMs h _
  | persist => exact persist_accounted nowMs h
  | delete => exact deleteHashedInternal_accounted h .explicit
  | removeValue => exact removeValueHashed_accounted outside nowMs h
  | get => exact get_accounted outside nowMs h
  | getRef => exact getRefHashed_accounted nowMs h
  | «exists» => exact exists_accounted nowMs h
  | entryExpireAt => exact entryExpireAtHashed_accounted nowMs h
  | ttl => exact ttlOf_accounted nowMs h _
  | governedGet => exact getValueBytesHashedWithGovernanceFilter_accounted outside nowMs h _
  | prepareFault => exact prepareObjectFaultHashed_accounted outside nowMs h _
  | finishFault => exact finishObjectFault_accounted outside nowMs h ..
  | completions => exact accounted_kept.completions outside nowMs h
  | maintenance => exact accounted_kept.processMaintenance outside nowMs h
  | evictOne => exact evictFirst_accounted outside nowMs outside.victims map h
  | configureMemory =>
    exact enforceMemoryLimit_accounted outside nowMs (h.congr rfl rfl rfl rfl rfl)
  | configureOverflow => exact configureObjectOverflow_accounted outside nowMs h ..

/-- After a hot set on a remote key, the key is in both tables. -/
theorem not_accounted_of_not_safe {map : FlatMap} {call : FlatMapCall}
    (hsafe : ¬ call.Safe map) : ¬ Accounted (call.apply map) := by
  obtain ⟨op, nowMs, outside⟩ := call
  cases op with
  | setTaggedNoTtlHot key value =>
    intro h
    rcases h.disjoint key with hnone | hnone
    · obtain ⟨entry, hentry⟩ := overwriteNoTtl_lookup map key value
      exact Option.some_ne_none entry (hentry.symm.trans hnone)
    · have hremote := congrArg (AList.lookup key) (overwriteNoTtl_remoteEntries map key value)
      exact hsafe (hremote.symm.trans hnone)
  | _ => exact absurd trivial hsafe

/-- The counters stay exact along a history exactly when all its calls are safe. -/
theorem safeRun_iff_accounted (map : FlatMap) (h : Accounted map) :
    SafeRun apply Safe map calls ↔ ∀ front, front <+: calls → Accounted (run map front) :=
  safeRun_iff_forall_good (fun _ h => h) (fun _ _ => apply_accounted)
    (fun _ _ _ => not_accounted_of_not_safe) calls map h

end FlatMapCall

namespace FlatMap

/-- Each path that ignores deadlines, against the path that checks them. -/
structure FastPathsAgree (map : FlatMap) (key : Bytes) (nowMs : ℕ) : Prop where
  shared : map.getRefHashedSharedNoTtl key = map.getSharedValueBytesHashed key nowMs
  owned : (map.lookupRefHashedLazy key, map) = map.getRefHashedTtl key nowMs
  expireAt : ((map.entries.lookup key).map (·.expireAtMs), map) =
    map.entryExpireAtHashedTtl key nowMs
  expireAtNoTtl : (map.entryExpireAtHashedNoTtl key, map) = map.entryExpireAtHashedTtl key nowMs
  contains : (map.containsReadable key, map) = map.existsTtl key nowMs
  purge : map = map.purgeExpired key nowMs
  sweep : (0, map) = map.sweepExpired nowMs

namespace Accounted

variable {map : FlatMap} {key : Bytes} {entry : FlatEntry} {remote : RemoteEntry}

theorem deadlineCount_eq_zero {expireAtMs : Option ℕ} (h : deadlineCount expireAtMs = 0) :
    expireAtMs = none := by
  cases expireAtMs with
  | none => rfl
  | some => cases h

section

variable (h : Accounted map)
include h

section

variable (hzero : map.ttlEntries = 0)
include hzero

theorem no_deadline (hkey : map.entries.lookup key = some entry) : entry.expireAtMs = none := by
  have hle := (h.entry_le hkey).2
  exact deadlineCount_eq_zero (by omega)

theorem no_remote_deadline (hkey : map.remoteEntries.lookup key = some remote) :
    remote.expireAtMs = none := by
  have hle := (h.remote_le hkey).2.1
  exact deadlineCount_eq_zero (by omega)

theorem not_expired (key : Bytes) (nowMs : ℕ) :
    (map.entries.lookup key).any (·.isExpired nowMs) = false ∧
      (map.remoteEntries.lookup key).any (·.isExpired nowMs) = false := by
  constructor
  · cases hkey : map.entries.lookup key with
    | none => rfl
    | some entry =>
      change isExpiredAt entry.expireAtMs nowMs = false
      rw [h.no_deadline hzero hkey]
      rfl
  · cases hkey : map.remoteEntries.lookup key with
    | none => rfl
    | some remote =>
      change isExpiredAt remote.expireAtMs nowMs = false
      rw [h.no_remote_deadline hzero hkey]
      rfl

theorem entryIsExpiredHashed_false (key : Bytes) (nowMs : ℕ) :
    map.entryIsExpiredHashed key nowMs = false := by
  obtain ⟨hresident, hremote⟩ := h.not_expired hzero key nowMs
  rw [entryIsExpiredHashed, hresident, hremote]
  rfl

theorem purgeThen_eq {α : Type} (key : Bytes) (nowMs : ℕ) (missing : α) (read : FlatMap → α) :
    map.purgeThen key nowMs missing read = (read map, map) := by
  rw [purgeThen, h.entryIsExpiredHashed_false hzero key nowMs]
  rfl

/-- With exact counters a zero deadline counter makes the shortcuts harmless. -/
theorem fastPathsAgree (key : Bytes) (nowMs : ℕ) : FastPathsAgree map key nowMs where
  shared := by
    unfold getRefHashedSharedNoTtl getSharedValueBytesHashed findReadable
    cases hkey : map.entries.lookup key with
    | none => rfl
    | some entry =>
      have hlive : entry.isExpired nowMs = false := by
        rw [FlatEntry.isExpired, h.no_deadline hzero hkey]
        rfl
      cases hprotected : entry.isProtected <;> simp [Option.filter, hprotected, hlive]
  owned := (h.purgeThen_eq hzero key nowMs none (·.lookupRefHashedLazy key)).symm
  expireAt := (h.purgeThen_eq hzero key nowMs none
    fun map => (map.entries.lookup key).map (·.expireAtMs)).symm
  expireAtNoTtl := by
    rw [entryExpireAtHashedTtl, h.purgeThen_eq hzero, entryExpireAtHashedNoTtl]
    cases hkey : map.entries.lookup key with
    | none => rfl
    | some => rw [Option.map_some, Option.map_some, h.no_deadline hzero hkey]
  contains := (h.purgeThen_eq hzero key nowMs false (·.containsReadable key)).symm
  purge := by
    rw [purgeExpired, h.entryIsExpiredHashed_false hzero key nowMs]
    rfl
  sweep := by
    have hresident : map.expiredKeys nowMs = [] := by
      apply List.filter_eq_nil_iff.mpr
      intro other _
      rw [(h.not_expired hzero other nowMs).1]
      exact Bool.false_ne_true
    have hremote : map.expiredRemoteKeys nowMs = [] := by
      apply List.filter_eq_nil_iff.mpr
      intro other _
      rw [(h.not_expired hzero other nowMs).2]
      exact Bool.false_ne_true
    have hnothing : map.deleteAll [] = map := rfl
    rw [sweepExpired, hresident, hnothing, hremote]
    rfl

end
end
end Accounted

section

variable {map : FlatMap} {outside : Outside} (hlimit : map.memoryLimitBytes = none)
  (hquiet : ∀ ticket, outside.pollPutValue ticket = none) (nowMs : ℕ)
include hlimit hquiet

theorem enforceMemoryLimit_storedBytes :
    (map.enforceMemoryLimit outside nowMs).storedBytes = map.storedBytes := by
  -- A pending put without a result leaves the map as it is.
  have hsame : ∀ runtime other key, other = map →
      other.completeOffload outside runtime nowMs key = map := by
    rintro runtime _ key rfl
    unfold completeOffload
    split
    · rfl
    · rw [hquiet]
  unfold enforceMemoryLimit processObjectOverflowCompletions
  cases map.objectOverflow with
  | none => simp only [hlimit]
  | some runtime => simp only [Kept.foldl (hsame runtime) _ map rfl, hlimit]

theorem setReplacing_storedBytes (h : Accounted map) (key value : Bytes) (governance : Option Bytes)
    (expireAtMs : Option ℕ) :
    (map.setReplacing outside key value governance expireAtMs nowMs).storedBytes =
      map.storedBytes - map.previousBytes key + key.length + value.length +
        optionLen governance := by
  unfold setReplacing deleteRemoteHashed previousBytes
  cases hentry : map.entries.lookup key with
  | some entry =>
    simp only [h.remote_none hentry, hentry, replaceOccupied]
    rw [adjustTtlCount_eq, enforceMemoryLimit_storedBytes (by exact hlimit) hquiet]
    simp [FlatEntry.storedBytes, FlatEntry.semanticBytes, FlatEntry.clearSemanticEmbedding,
      add_assoc]
  | none =>
    cases map.remoteEntries.lookup key with
    | none | some remote =>
      simp only [countEviction, reduceCtorEq, if_false, hentry]
      rw [enforceMemoryLimit_storedBytes (by exact hlimit) hquiet]
      rfl

end
end FlatMap

namespace FlatMapCall

open FlatMap

theorem empty_accounted : Accounted {} where
  stored := rfl
  ttl := rfl
  remoteValues := rfl
  disjoint _ := Or.inl rfl

/-- The counters are exact in every state of a history, and the paths that ignore
deadlines answer as the others do wherever no entry carries one, exactly when no
hot set of the history hits a remote key. -/
theorem counters_exact_iff_safeRun (calls : List FlatMapCall) : (∀ front, front <+: calls →
      Accounted (run {} front) ∧ ((run {} front).ttlEntries = 0 →
          ∀ key nowMs, FastPathsAgree (run {} front) key nowMs)) ↔
      SafeRun apply Safe {} calls := by
  rw [safeRun_iff_accounted calls {} empty_accounted]
  constructor
  · intro hall front hfront
    exact (hall front hfront).1
  · intro hall front hfront
    have h := hall front hfront
    exact ⟨h, fun hzero key nowMs => h.fastPathsAgree hzero key nowMs⟩

/-- A value is written, offloaded by an explicit eviction and its completion, and
then written again by the hot setter. -/
def hotSetAfterOffload : List FlatMapCall :=
  [{ op := .configureOverflow
      (some { fetchOnGet := true, minValueBytes := 1, failurePolicy := .retainResident }) false },
    { op := .setSlice [107] [1, 2] none },
    { op := .evictOne, outside := { victims := [[107]], enqueuePutValue := fun _ => some 0 } },
    { op := .completions
      outside := { pollPutValue := fun _ => some (.ok
        { objectKey := "o", storedLen := 2, compression := .none, checksum := 0 }) } },
    { op := .setTaggedNoTtlHot [107] [3] }]

theorem hotSetAfterOffload_not_accounted : ¬ Accounted (run {} hotSetAfterOffload) := by
  intro h
  have hresident : ((run {} hotSetAfterOffload).entries.lookup [107]).isSome = true := by decide
  have hremote : ((run {} hotSetAfterOffload).remoteEntries.lookup [107]).isSome = true := by
    decide
  rcases h.disjoint [107] with hnone | hnone
  · rw [hnone] at hresident
    cases hresident
  · rw [hnone] at hremote
    cases hremote

/-- A write is admitted exactly when it leaves at most the limit or no more than before, in every
state that safe calls reach, as long as no offload ends during it. -/
theorem canSetBytesHashedWithLimit_iff (calls : List FlatMapCall)
    (hsafe : SafeRun apply Safe {} calls) (hlimit : (run {} calls).memoryLimitBytes = none)
    {outside : Outside} (hquiet : ∀ ticket, outside.pollPutValue ticket = none) (key value : Bytes)
    (governance : Option Bytes) (expireAtMs : Option ℕ) (nowMs : ℕ) {hardLimit : ℕ}
    (hfinite : hardLimit ≠ 2 ^ 64 - 1) :
    let map := run {} calls
    let after := map.setBytesHashedWithGovernanceOption outside key value governance expireAtMs
      nowMs
    map.canSetBytesHashedWithLimit key value.length (optionLen governance) hardLimit = true ↔
      after.storedBytes ≤ hardLimit ∨ after.storedBytes ≤ map.storedBytes := by
  have h := (safeRun_iff_accounted calls {} empty_accounted).mp hsafe calls (List.prefix_refl _)
  simp only [setBytesHashedWithGovernanceOption, setReplacing_storedBytes hlimit hquiet nowMs h,
    canSetBytesHashedWithLimit, hfinite, if_false, decide_eq_true_eq]

/-- A value on its way to the object store. -/
def offloading : List FlatMapCall :=
  [{ op := .configureOverflow
      (some { fetchOnGet := true, minValueBytes := 1, failurePolicy := .evictResident }) false },
    { op := .setSlice [107] [1, 2] none },
    { op := .evictOne, outside := { victims := [[107]], enqueuePutValue := fun _ => some 0 } }]

theorem canSetBytesHashedWithLimit_offloading :
    let map := run {} offloading
    let after := map.setBytesHashedWithGovernanceOption {} [107] [1] (some [4, 5]) none 0
    map.canSetBytesHashedWithLimit [107] 1 2 3 = true ↔
      after.storedBytes ≤ 3 ∨ after.storedBytes ≤ map.storedBytes :=
  canSetBytesHashedWithLimit_iff offloading ⟨trivial, trivial, trivial, trivial⟩ rfl
    (fun _ => rfl) [107] [1] (some [4, 5]) none 0 (by decide)

/-- The offload ends during the write, and makes room for it. -/
theorem canSetBytesHashedWithLimit_of_offload_ends :
    (run {} offloading).canSetBytesHashedWithLimit [108] 1 0 4 = false ∧
      ((run {} offloading).setBytesHashedWithGovernanceOption
        { pollPutValue := fun _ => some (.error ()) } [108] [1] none none 0).storedBytes ≤ 4 := by
  decide

end FlatMapCall
end ShardKv
