import ShardKv.Storage.Governance

/-!
# Non-interference of protected values

Everything a caller can ask of a flat map is one operation with one answer. An
operation admits the metadata it is authorized for: ordinary reads, visitors,
transforms and removals admit none, a governed read and a filtered search what
their filter accepts, and the plain semantic search everything, by design. A
protected value that an operation does not admit does not show in its answer.
-/
namespace ShardKv

open FlatMap (SliceUpdate)

/-- The operations of a flat map that answer their caller. -/
inductive FlatMapQuery (Query Score State Result Error : Type)
  | getRefHashedSharedNoTtl (key : Bytes)
  | getSharedValueBytesHashed (key : Bytes)
  | getRefHashedShared (key : Bytes)
  | withResponseValueBytesHashed (key : Bytes) (ownerMinLen : ℕ)
  | getSharedValueBytesHashedTaggedNoTtl (hashKey : Bytes → ℕ) (hash keyTag keyLen : ℕ)
  | getRefHashed (key : Bytes)
  | get (key : Bytes)
  | exists (key : Bytes)
  | isValueProtectedHashed (key : Bytes)
  | entryExpireAtHashed (key : Bytes)
  | entryExpireAtForKeepTtlHashed (key : Bytes)
  | ttl (key : Bytes) (seconds : Bool)
  | snapshotKeys
  | visitKeys (visit : State → Bytes → Bool × State) (state : State)
  | visitEntries (visit : State → Bytes × Bytes × Option ℕ → Bool × State) (state : State)
  | scanKeysVisit (offset limit visited emitted : ℕ) (visit : State → Bytes → Bool × State)
      (state : State)
  | transformValueHashed (key : Bytes) (clearTtl : Bool)
      (transform : Option Bytes → Except Error (Result × Bytes))
  | updateValueHashedNoTtl (key : Bytes) (isUnique : Bool) (update : SliceUpdate)
  | getValueBytesHashedAndExpire (key : Bytes) (expireAtMs : ℕ)
  | expire (key : Bytes) (expireAtMs : ℕ)
  | persist (key : Bytes)
  | deleteHashed (key : Bytes)
  | removeValueHashed (key : Bytes)
  | governedGet (key : Bytes) (authorize : Option Bytes → Bool)
  | semanticSearch (query : Query) (minScore : Score)
  | semanticSearchExact (query : Query) (minScore : Score)
  | semanticSearchWithGovernanceFilter (query : Query) (minScore : Score)
      (governanceFilter : Option Bytes → Bool)
  | semanticSearchExactWithGovernanceFilter (query : Query) (minScore : Score)
      (governanceFilter : Option Bytes → Bool)

/-- What an operation answers. -/
inductive FlatMapAnswer (Score State Result Error : Type)
  | value (value : Option Bytes)
  | response (value : Option (Bytes × Option Bytes))
  | flag (flag : Bool)
  | deadline (expireAtMs : Option (Option ℕ))
  | remaining (ttl : ℤ)
  | keys (keys : List Bytes)
  | visited (finished : Bool × State)
  | entries (finished : Except String Bool × State)
  | scanned (cursor : Option ℕ × ℕ × ℕ × State)
  | transformed (result : Except Error Result)
  | found (semanticMatch : Option (SemanticMatch Score))

namespace FlatMapQuery

variable {Query Score State Result Error : Type} [LT Score] [DecidableLT Score]

/-- The metadata an operation is authorized for. -/
def admits : FlatMapQuery Query Score State Result Error → Option Bytes → Bool
  | .governedGet _ authorize => authorize
  | .semanticSearchWithGovernanceFilter _ _ governanceFilter => governanceFilter
  | .semanticSearchExactWithGovernanceFilter _ _ governanceFilter => governanceFilter
  | .semanticSearch _ _ => fun _ => true
  | .semanticSearchExact _ _ => fun _ => true
  | _ => fun _ => false

def answer (store : SemanticFlatMap Query Score) (outside : Outside) (nowMs : ℕ) :
    FlatMapQuery Query Score State Result Error → FlatMapAnswer Score State Result Error
  | .getRefHashedSharedNoTtl key => .value (store.map.getRefHashedSharedNoTtl key)
  | .getSharedValueBytesHashed key => .value (store.map.getSharedValueBytesHashed key nowMs)
  | .getRefHashedShared key => .value (store.map.getRefHashedShared key nowMs)
  | .withResponseValueBytesHashed key ownerMinLen =>
    .response (store.map.withResponseValueBytesHashed key nowMs ownerMinLen)
  | .getSharedValueBytesHashedTaggedNoTtl hashKey hash keyTag keyLen =>
    .value (store.map.getSharedValueBytesHashedTaggedNoTtl hashKey hash keyTag keyLen)
  | .getRefHashed key => .value (store.map.getRefHashed key nowMs).1
  | .get key => .value (store.map.get outside key nowMs).1
  | .exists key => .flag (store.map.exists key nowMs).1
  | .isValueProtectedHashed key => .flag (store.map.isValueProtectedHashed key nowMs)
  | .entryExpireAtHashed key => .deadline (store.map.entryExpireAtHashed key nowMs).1
  | .entryExpireAtForKeepTtlHashed key =>
    .deadline (store.map.entryExpireAtForKeepTtlHashed key nowMs).1
  | .ttl key seconds => .remaining (store.map.ttlOf key nowMs seconds).1
  | .snapshotKeys => .keys (store.map.snapshotKeys nowMs)
  | .visitKeys visit state => .visited (store.map.visitKeys nowMs visit state)
  | .visitEntries visit state => .entries (store.map.visitEntries nowMs visit state)
  | .scanKeysVisit offset limit visited emitted visit state =>
    .scanned (store.map.scanKeysVisit offset limit nowMs visited emitted visit state)
  | .transformValueHashed key clearTtl transform =>
    .transformed (store.map.transformValueHashed outside key nowMs clearTtl transform).1
  | .updateValueHashedNoTtl key isUnique update =>
    .flag (store.map.updateValueHashedNoTtl key isUnique update).1
  | .getValueBytesHashedAndExpire key expireAtMs =>
    .value (store.map.getValueBytesHashedAndExpire key expireAtMs nowMs).1
  | .expire key expireAtMs => .flag (store.map.expire key expireAtMs nowMs).1
  | .persist key => .flag (store.map.persist key nowMs).1
  | .deleteHashed key => .flag (store.map.deleteHashed key).1
  | .removeValueHashed key => .value (store.map.removeValueHashed outside key nowMs).1
  | .governedGet key authorize =>
    .value
      (store.map.getValueBytesHashedWithGovernanceFilter outside key nowMs authorize).1.released
  | .semanticSearch query minScore => .found (store.semanticSearch query minScore nowMs)
  | .semanticSearchExact query minScore => .found (store.semanticSearchExact query minScore nowMs)
  | .semanticSearchWithGovernanceFilter query minScore governanceFilter =>
    .found (store.semanticSearchWithGovernanceFilter query minScore nowMs governanceFilter)
  | .semanticSearchExactWithGovernanceFilter query minScore governanceFilter =>
    .found (store.semanticSearchExactWithGovernanceFilter query minScore nowMs governanceFilter)

end FlatMapQuery

namespace SemanticFlatMap

variable {Query Score : Type} {store store' : SemanticFlatMap Query Score}
  {outside outside' : Outside} {admits : Option Bytes → Bool}

/-- Two stores with one index whose maps differ in hidden values only. -/
structure PublicEq (admits : Option Bytes → Bool) (outside outside' : Outside)
    (store store' : SemanticFlatMap Query Score) : Prop where
  map : FlatMap.PublicEq admits outside outside' store.map store'.map
  index : store.index = store'.index
  tokenId : store.tokenId = store'.tokenId

/-- A candidate with refused metadata is not accepted, whatever its value. -/
theorem PublicEq.acceptSemanticCandidate (h : PublicEq admits outside outside' store store')
    (nowMs : ℕ) : store.acceptSemanticCandidate nowMs admits =
      store'.acceptSemanticCandidate nowMs admits := by
  funext candidate
  have hentry := h.map.entry candidate.key
  unfold SemanticFlatMap.acceptSemanticCandidate
  rw [h.tokenId]
  generalize store.map.entries.lookup candidate.key = entry at hentry ⊢
  generalize store'.map.entries.lookup candidate.key = entry' at hentry ⊢
  cases hentry with
  | same => rfl
  | hidden hides =>
    simp only [hides.isExpired, hides.semanticIndexToken, hides.governance,
      refused_of_hiddenFrom hides.hidden]
    split_ifs <;> simp_all

variable {State Result Error : Type} [LT Score] [DecidableLT Score]

section

variable (h : PublicEq admits outside outside' store store') (query : Query) (minScore : Score)
  (nowMs : ℕ)
include h

theorem PublicEq.semanticSearchWithGovernanceFilter :
    store.semanticSearchWithGovernanceFilter query minScore nowMs admits =
      store'.semanticSearchWithGovernanceFilter query minScore nowMs admits := by
  rw [SemanticFlatMap.semanticSearchWithGovernanceFilter,
    SemanticFlatMap.semanticSearchWithGovernanceFilter, h.acceptSemanticCandidate, h.index]

theorem PublicEq.semanticSearchExactWithGovernanceFilter :
    store.semanticSearchExactWithGovernanceFilter query minScore nowMs admits =
      store'.semanticSearchExactWithGovernanceFilter query minScore nowMs admits := by
  rw [SemanticFlatMap.semanticSearchExactWithGovernanceFilter,
    SemanticFlatMap.semanticSearchExactWithGovernanceFilter, h.acceptSemanticCandidate, h.index]

end

variable (value : Bytes)

def cachedAnswer (policy : UInt8) : FlatEntry :=
  { value, semanticIndexToken := some 8, governance := some [policy] }

/-- Two cached answers under two policies, found by their embeddings. -/
def cachedAnswers : SemanticFlatMap Unit ℕ where
  map :=
    { entries := ((∅ : FinMap Bytes FlatEntry).insert [107] (cachedAnswer value 112)).insert [108]
        (cachedAnswer [9] 113)
      storedBytes :=
        (cachedAnswer value 112).storedBytes [107] + (cachedAnswer [9] 113).storedBytes [108] }
  index :=
    { exact := fun _ => [{ id := 0, key := [107], score := 1 }, { id := 0, key := [108], score := 1 }]
      ranked := fun _ _ => [] }
  tokenId := fun _ => 0

theorem cachedAnswers_lookup (key : Bytes) :
    (cachedAnswers value).map.entries.lookup key =
      if key = [108] then some (cachedAnswer [9] 113)
      else if key = [107] then some (cachedAnswer value 112) else none := by
  simp only [cachedAnswers, FinMap.lookup_insert_eq]
  split_ifs <;> rfl

/-- Whoever is refused the first policy does not see the first answer. -/
theorem cachedAnswers_publicEq (hrefused : admits (some [112]) = false) (value value' : Bytes) :
    PublicEq admits {} {} (cachedAnswers value) (cachedAnswers value') where
  index := rfl
  tokenId := rfl
  map :=
    { cells := by
        intro key
        constructor
        · simp only [FlatMap.cell, cachedAnswers_lookup]
          split_ifs
          · exact .same _
          · exact .hidden ⟨by simp [hiddenFrom, cachedAnswer, hrefused], rfl, rfl, rfl⟩
          · exact .same none
        · exact .same none
        · intro remote hremote
          cases hremote
        · intro entry _ _
          refine ⟨rfl, fun pending hpending => ?_⟩
          cases hpending
        · exact fun _ _ _ _ _ => .inl rfl
      keys := rfl
      remoteKeys := rfl
      ttlEntries := rfl
      memoryLimitBytes := rfl
      objectOverflow := rfl
      pendingObjectFaultBytes := rfl }

/-- The plain search hands the protected value out. -/
theorem semanticSearch_cachedAnswers :
    PublicEq (fun _ => false) {} {} (cachedAnswers [1]) (cachedAnswers [2]) ∧
      (cachedAnswers [1]).semanticSearch () 0 0 ≠ (cachedAnswers [2]).semanticSearch () 0 0 :=
  ⟨cachedAnswers_publicEq rfl [1] [2], by decide⟩

/-- Protected values that an operation is not authorized for do not show in its answer. -/
theorem noninterference (query : FlatMapQuery Query Score State Result Error)
    (h : PublicEq query.admits outside outside' store store') (nowMs : ℕ) :
    query.answer store outside nowMs = query.answer store' outside' nowMs := by
  cases query with
  | getRefHashedSharedNoTtl key => exact congrArg _ (h.map.getRefHashedSharedNoTtl key)
  | getSharedValueBytesHashed key => exact congrArg _ (h.map.getSharedValueBytesHashed key nowMs)
  | getRefHashedShared key => exact congrArg _ (h.map.getRefHashedShared key nowMs)
  | withResponseValueBytesHashed => exact congrArg _ (h.map.withResponseValueBytesHashed _ nowMs _)
  | getSharedValueBytesHashedTaggedNoTtl =>
    exact congrArg _ (h.map.getSharedValueBytesHashedTaggedNoTtl ..)
  | getRefHashed key => exact congrArg _ (h.map.getRefHashed key nowMs)
  | get key => exact congrArg _ (h.map.get key nowMs)
  | «exists» key => exact congrArg _ (h.map.exists key nowMs)
  | isValueProtectedHashed key => exact congrArg _ (h.map.isValueProtectedHashed key nowMs)
  | entryExpireAtHashed key => exact congrArg _ (h.map.entryExpireAtHashed key nowMs)
  | entryExpireAtForKeepTtlHashed => exact congrArg _ (h.map.entryExpireAtForKeepTtlHashed _ nowMs)
  | ttl => exact congrArg _ (h.map.ttlOf _ nowMs _)
  | snapshotKeys => exact congrArg _ (h.map.snapshotKeys nowMs)
  | visitKeys => exact congrArg _ (h.map.visitKeys nowMs ..)
  | visitEntries => exact congrArg _ (h.map.visitEntries nowMs ..)
  | scanKeysVisit => exact congrArg _ (h.map.scanKeysVisit nowMs ..)
  | transformValueHashed => exact congrArg _ (h.map.transformValueHashed _ nowMs ..)
  | updateValueHashedNoTtl => exact congrArg _ (h.map.updateValueHashedNoTtl ..)
  | getValueBytesHashedAndExpire => exact congrArg _ (h.map.getValueBytesHashedAndExpire _ nowMs _)
  | expire => exact congrArg _ (h.map.expire _ nowMs _)
  | persist key => exact congrArg _ (h.map.persist key nowMs)
  | deleteHashed key => exact congrArg _ (h.map.deleteHashedInternal key .explicit)
  | removeValueHashed key => exact congrArg _ (h.map.removeValueHashed key nowMs)
  | governedGet => exact congrArg _ (h.map.governedRead _ nowMs)
  | semanticSearch query minScore
  | semanticSearchWithGovernanceFilter =>
    exact congrArg _ (h.semanticSearchWithGovernanceFilter _ _ nowMs)
  | semanticSearchExact query minScore
  | semanticSearchExactWithGovernanceFilter =>
    exact congrArg _ (h.semanticSearchExactWithGovernanceFilter _ _ nowMs)

/-- Read with a token for the second policy only. -/
def secondPolicyGet (key : Bytes) : FlatMapQuery Unit ℕ Unit Unit Unit :=
  .governedGet key (· == some [113])

theorem noninterference_cachedAnswers :
    (∀ key, (secondPolicyGet key).answer (cachedAnswers [1]) {} 0 =
      (secondPolicyGet key).answer (cachedAnswers [2]) {} 0) ∧
    (secondPolicyGet [107]).answer (cachedAnswers [1]) {} 0 = .value none ∧
    (secondPolicyGet [108]).answer (cachedAnswers [1]) {} 0 = .value (some [9]) :=
  ⟨fun key => noninterference (secondPolicyGet key) (cachedAnswers_publicEq rfl [1] [2]) 0,
    rfl, rfl⟩

end SemanticFlatMap
end ShardKv
