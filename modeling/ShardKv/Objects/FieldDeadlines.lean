import ShardKv.Objects.StoreAccess

/-!
# Hash-field deadlines

The deadlines of hash fields are kept beside the hashes. Along every history each of
them belongs to a field of a stored hash, and no key has an empty map of deadlines. The
three commands that count or list the fields of a hash then agree about which of them
are alive, although one of them subtracts and the others filter.
-/
namespace ShardKv

open List
variable {ι β σ : Type} [DecidableEq ι] [LinearOrder β] [LinearOrder σ]

namespace RedisObjectBucket

variable {b : RedisObjectBucket β σ} {key : β} {hash : FinMap β β} {nowMs : ℕ}

/-- The clock is read only for a key that has field deadlines. -/
def hashFieldNowMsFor (b : RedisObjectBucket β σ) (key : β) (nowMs : ℕ) : Option ℕ :=
  ((b.hashFieldExpireAtMs.lookup key).filter fun submap => !submap.keys.isEmpty).map fun _ => nowMs

/-- The filter of the commands that list fields. -/
def showsField (b : RedisObjectBucket β σ) (key : β) (nowMs : Option ℕ) (field : β) : Bool :=
  match nowMs with
  | some nowMs => !b.hashFieldIsExpired key field nowMs
  | none => true

def hlen (b : RedisObjectBucket β σ) (key : β) (nowMs : ℕ) : RedisObjectResult β :=
  match b.hashes.lookup key with
  | some hash => .integer (hash.keys.length - (b.expiredHashFields key nowMs).length : ℕ)
  | none => if b.hasNon key .hash then .wrongType else .integer 0

def hkeys (b : RedisObjectBucket β σ) (key : β) (nowMs : ℕ) : RedisObjectResult β :=
  match b.hashes.lookup key with
  | some hash =>
    .array (((hash.keys.insertionSort (· ≤ ·)).filter fun field =>
      b.showsField key (b.hashFieldNowMsFor key nowMs) field).map some)
  | none => if b.hasNon key .hash then .wrongType else .array []

def hgetall (b : RedisObjectBucket β σ) (key : β) (nowMs : ℕ) : RedisObjectResult β :=
  match b.hashes.lookup key with
  | some hash =>
    .array (((hashEntries hash).filter fun entry =>
      b.showsField key (b.hashFieldNowMsFor key nowMs) entry.1).flatMap fun entry =>
        [some entry.1, some entry.2])
  | none => if b.hasNon key .hash then .wrongType else .array []

/-- The fields without a deadline or with one in the future. -/
def liveFields (b : RedisObjectBucket β σ) (key : β) (nowMs : ℕ) : List β :=
  match b.hashes.lookup key with
  | some hash => hash.keys.filter fun field => (b.hashFieldExpiry key field).all (nowMs < ·)
  | none => []

variable (b) in
theorem not_hashFieldIsExpired (key field : β) (nowMs : ℕ) :
    (!b.hashFieldIsExpired key field nowMs) = (b.hashFieldExpiry key field).all (nowMs < ·) := by
  cases h : b.hashFieldExpiry key field with
  | none => simp [hashFieldIsExpired, h]
  | some deadline =>
    simp only [hashFieldIsExpired, h, Option.any_some, Option.all_some, ← Nat.not_le, decide_not]

variable (b) in
/-- Without a reading of the clock nothing has a deadline. -/
theorem showsField_eq (key field : β) (nowMs : ℕ) :
    b.showsField key (b.hashFieldNowMsFor key nowMs) field =
      (b.hashFieldExpiry key field).all (nowMs < ·) := by
  rw [← not_hashFieldIsExpired]
  cases hsubmap : b.hashFieldExpireAtMs.lookup key with
  | none => simp [hashFieldNowMsFor, showsField, hashFieldIsExpired, hashFieldExpiry, hsubmap]
  | some submap =>
    cases hempty : submap.keys.isEmpty with
    | false => simp [hashFieldNowMsFor, showsField, hsubmap, Option.filter, hempty]
    | true =>
      have hnone : submap.lookup field = none := by
        simpa using keys_isEmpty_iff.mp hempty field
      simp [hashFieldNowMsFor, showsField, hashFieldIsExpired, hashFieldExpiry, hsubmap,
        Option.filter, hempty, hnone]

/-- The passed fields are fields of the hash, once each. -/
theorem expiredHashFields_perm (h : b.FieldsStored) (hlookup : b.hashes.lookup key = some hash)
    (nowMs : ℕ) :
    (b.expiredHashFields key nowMs).Perm
      (hash.keys.filter fun field => b.hashFieldIsExpired key field nowMs) := by
  refine (perm_ext_iff_of_nodup ?_ (hash.keys_nodup.filter _)).mpr fun field => ?_
  · unfold expiredHashFields
    split
    · exact nodup_nil
    next ttls _ =>
      exact ttls.keys_nodup.sublist (filter_sublist.map _)
  · rw [mem_expiredHashFields, mem_filter]
    refine ⟨fun hexpired => ⟨?_, hexpired⟩, fun hmem => hmem.2⟩
    have hdated : (b.hashFieldExpiry key field).isSome = true := by
      rw [hashFieldIsExpired, Option.any_eq_true] at hexpired
      obtain ⟨deadline, hdeadline, -⟩ := hexpired
      exact Option.isSome_of_eq_some hdeadline
    exact AList.lookup_isSome.mp (h.field_stored hlookup hdated)

theorem replies_of_none (hnone : b.hashes.lookup key = none) (hkind : b.hasNon key .hash = false)
    (nowMs : ℕ) : b.hlen key nowMs = .integer 0 ∧ b.hkeys key nowMs = .array [] ∧
      b.hgetall key nowMs = .array [] := by
  simp [hlen, hkeys, hgetall, hnone, hkind]

/-- The three replies of a hash, or of a key that holds nothing. -/
theorem replies_agree (h : b.FieldsStored) (hkind : b.hasNon key .hash = false) (nowMs : ℕ) :
    b.hlen key nowMs = .integer (b.liveFields key nowMs).length ∧
      (∃ fields, b.hkeys key nowMs = .array fields ∧
        fields.length = (b.liveFields key nowMs).length) ∧
      ∃ entries, b.hgetall key nowMs = .array entries ∧
        entries.length = 2 * (b.liveFields key nowMs).length := by
  unfold hlen hkeys hgetall liveFields
  cases hlookup : b.hashes.lookup key with
  | none => simp [hkind]
  | some hash =>
    simp only [showsField_eq]
    refine ⟨?_, ⟨_, rfl, ?_⟩, _, rfl, ?_⟩
    · have hsplit := length_eq_length_filter_add (l := hash.keys)
        fun field => b.hashFieldIsExpired key field nowMs
      simp only [not_hashFieldIsExpired] at hsplit
      rw [(expiredHashFields_perm h hlookup nowMs).length_eq, hsplit, Nat.add_sub_cancel_left]
    · rw [length_map]
      exact ((perm_insertionSort (· ≤ ·) hash.keys).filter _).length_eq
    · have hperm := (perm_insertionSort (fun left right : β × β => left.1 ≤ right.1)
        (hash.entries.map fun entry => (entry.1, entry.2))).filter fun entry =>
          (b.hashFieldExpiry key entry.1).all (nowMs < ·)
      simp only [hashEntries, length_flatMap, length_cons, length_nil,
        map_const', sum_replicate, hperm.length_eq, AList.keys, List.keys,
        filter_map, length_map, smul_eq_mul, Nat.mul_comm 2]
      rfl

theorem liveFields_of_not_live {laterMs : ℕ} (h : b.hashHasLiveFields key nowMs = false)
    (hle : nowMs ≤ laterMs) : b.liveFields key laterMs = [] := by
  unfold liveFields
  cases hlookup : b.hashes.lookup key with
  | none => rfl
  | some hash =>
    refine filter_eq_nil_iff.mpr fun field hfield hlater => Bool.false_ne_true (h.symm.trans ?_)
    refine hashHasLiveFields_iff.mpr ⟨hash, hlookup, field, AList.lookup_isSome.mpr hfield, ?_⟩
    rw [← not_hashFieldIsExpired, Bool.not_eq_true'] at hlater
    rw [← Bool.not_eq_true, hashFieldIsExpired, Option.any_eq_true] at hlater ⊢
    rintro ⟨deadline, hdeadline, hpassed⟩
    exact hlater ⟨deadline, hdeadline, by simp at hpassed ⊢; omega⟩

/-- The clean-up of a read leaves nothing under the key. -/
theorem cleanUpForRead_frees (hb : b.WellFormed)
    {remove : RedisObjectBucket β σ → Bool × RedisObjectBucket β σ}
    (h : b.cleanUpForRead key nowMs = some remove) : (remove b).2.containsObject key = false := by
  unfold cleanUpForRead at h
  split_ifs at h with hexpired hempty
  · cases h
    rw [Bool.and_eq_true] at hexpired
    simp only [deleteExpired, hexpired.2, if_true]
    exact containsObject_eq_false.mpr fun kind =>
      SlotTable.not_holds_of_lookup (lookup_deleteAny hb key kind)
  · cases h
    have hkept := removeExpiredHashFields_kept b key nowMs
    have hgone : (b.slots.holds .hash key && !b.hashHasLiveFields key nowMs) = true := hempty
    have hheld := (Bool.and_eq_true_iff.mp hgone).1
    dsimp only
    rw [removeExpiredHashIfEmpty_eq, if_pos hgone]
    refine containsObject_eq_false.mpr ((hkept.wellFormed hb).exclusive.not_holds_drop ?_)
    rw [hkept.holds]
    exact hheld

variable (b key nowMs) in
theorem cleanUpForRead_isSome : (b.cleanUpForRead key nowMs).isSome =
      (b.objectIsExpired key nowMs || b.hashNeedsEmptyExpiryCleanup key nowMs) := by
  have hdated : b.objectIsExpired key nowMs = true → b.hasExpirations = true := by
    intro h
    obtain ⟨deadline, hdeadline, -⟩ := (Option.any_eq_true _ _).mp h
    rw [hasExpirations, Bool.not_eq_true']
    by_contra hnone
    simp [keys_isEmpty_iff.mp (Bool.not_eq_false _ ▸ hnone)] at hdeadline
  unfold cleanUpForRead
  cases hexpired : b.objectIsExpired key nowMs with
  | true => simp [hdated hexpired]
  | false => cases b.hashNeedsEmptyExpiryCleanup key nowMs <;> simp

end RedisObjectBucket

namespace RedisObjectStore

open RedisObjectBucket
variable {store : RedisObjectStore ι β σ} {route : EmbeddedKeyRoute ι} {key : β}

/-- A read answers from the bucket, or as from an empty one when its clean-up took the key. -/
theorem objectReadRouted_eq (hs : store.Sound) {env : ObjectSurroundings β}
    (hstring : env.stringExists key = false) (route : EmbeddedKeyRoute ι) (lockMs : ℕ)
    {op : RedisObjectBucket β σ → RedisObjectResult β}
    (hop : ∀ b, b.containsObject key = false → op b = op {}) :
    (store.objectReadRouted env route key lockMs op).1 =
      if (store.bucketAt route).objectIsExpired key lockMs ||
          (store.bucketAt route).hashNeedsEmptyExpiryCleanup key lockMs then op {}
      else op (store.bucketAt route) := by
  rw [← cleanUpForRead_isSome]
  unfold objectReadRouted
  cases hclean : (store.bucketAt route).cleanUpForRead key lockMs with
  | none => simp [hstring]
  | some remove =>
    have hbucket := (countRemoval_commits store route remove).bucketAt
    have hfree := cleanUpForRead_frees (hs.wellFormed route) hclean
    rw [← hbucket] at hfree
    simp [hstring, hop _ hfree]

end RedisObjectStore

namespace ObjectCall

open RedisObjectStore RedisObjectBucket
variable {routing : ObjectRouting ι β} {arith : ScoreArithmetic β σ}

theorem history_sound (calls : List (ObjectCall β σ)) : ∀ {store : RedisObjectStore ι β σ},
    store.Sound → (calls.foldl (apply routing arith) store).Sound := by
  induction calls with
  | nil => exact fun hs => hs
  | cons call calls ih => exact fun hs => ih (apply_sound hs call)

/-- Along every history the deadlines of fields belong to stored fields. Whatever the time, the
number that `HLEN` gives, of the fields that `HKEYS` lists and of those that `HGETALL` lists with
their values is the number of fields without a deadline or with one in the future. -/
theorem fieldDeadlines_consistent (routing : ObjectRouting ι β) (arith : ScoreArithmetic β σ)
    (calls : List (ObjectCall β σ)) (store : RedisObjectStore ι β σ)
    (hstore : store = calls.foldl (apply routing arith) {}) :
    (∀ shardId i, ((store.shards shardId).buckets i).FieldsStored) ∧
      ∀ (env : ObjectSurroundings β) (key : β) (lockMs callMs : ℕ), env.stringExists key = false →
        (store.bucketAt (routing.routeKey key)).hasNon key .hash = false → lockMs ≤ callMs →
        ∃ live : ℕ, live =
            (if (store.bucketAt (routing.routeKey key)).objectIsExpired key lockMs then 0
            else ((store.bucketAt (routing.routeKey key)).liveFields key callMs).length) ∧
          (store.objectReadRouted env (routing.routeKey key) key lockMs fun b =>
            b.hlen key callMs).1 = .integer live ∧
          (∃ fields, (store.objectReadRouted env (routing.routeKey key) key lockMs fun b =>
            b.hkeys key callMs).1 = .array fields ∧ fields.length = live) ∧
          ∃ entries, (store.objectReadRouted env (routing.routeKey key) key lockMs fun b =>
            b.hgetall key callMs).1 = .array entries ∧ entries.length = 2 * live := by
  have hs : store.Sound := hstore ▸ history_sound calls sound_empty
  refine ⟨fun shardId i => (hs shardId i).fields, ?_⟩
  intro env key lockMs callMs hstring hkind hclock
  have hfree (b : RedisObjectBucket β σ) (h : b.containsObject key = false) :
      b.hashes.lookup key = none ∧ b.hasNon key .hash = false := by
    rw [b.containsObject_eq_or key .hash, Bool.or_eq_false_iff] at h
    exact ⟨Option.not_isSome_iff_eq_none.mp (ne_true_of_eq_false h.1), h.2⟩
  have hnothing (b : RedisObjectBucket β σ) (h : b.containsObject key = false) :=
    replies_of_none (hfree b h).1 (hfree b h).2 callMs
  have hempty : ({} : RedisObjectBucket β σ).containsObject key = false := rfl
  refine ⟨_, rfl, ?_⟩
  rw [objectReadRouted_eq hs hstring _ lockMs fun b h =>
      (hnothing b h).1.trans (hnothing {} hempty).1.symm,
    objectReadRouted_eq hs hstring _ lockMs fun b h =>
      (hnothing b h).2.1.trans (hnothing {} hempty).2.1.symm,
    objectReadRouted_eq hs hstring _ lockMs fun b h =>
      (hnothing b h).2.2.trans (hnothing {} hempty).2.2.symm]
  cases hexpired : (store.bucketAt (routing.routeKey key)).objectIsExpired key lockMs with
  | true => exact ⟨rfl, ⟨[], rfl, rfl⟩, [], rfl, rfl⟩
  | false =>
    cases hclean : (store.bucketAt (routing.routeKey key)).hashNeedsEmptyExpiryCleanup key lockMs with
    | false => exact replies_agree (hs _ _).fields hkind callMs
    | true =>
      have hdead := (Bool.and_eq_true_iff.mp hclean).2
      rw [liveFields_of_not_live (by simpa using hdead) hclock]
      exact ⟨rfl, ⟨[], rfl, rfl⟩, [], rfl, rfl⟩

/-- A hash of three fields, two of them with a deadline. -/
def deadlineCalls : List (ObjectCall ℕ ℕ) :=
  [{ op := .create 7 (.hset 1 10) }, { op := .write 7 (.hsetMany [(2, 20), (3, 30)]) },
    { op := .write 7 (.hashFieldExpire [1] 4 .none) },
    { op := .write 7 (.hashFieldExpire [2] 100 .none) }]

/-- At time 5 the first deadline has passed, and two fields are counted. -/
theorem fieldDeadlines_consistent_deadlineCalls :
    let store := deadlineCalls.foldl (apply oneShard wholeScores) ({} : RedisObjectStore Unit ℕ ℕ)
    (store.objectReadRouted {} (oneShard.routeKey 7) 7 0 fun b => b.hlen 7 5).1 = .integer 2 := by
  intro store
  obtain ⟨live, hlive, hlen, -⟩ := (fieldDeadlines_consistent oneShard wholeScores deadlineCalls
    store rfl).2 {} 7 0 5 rfl (by decide +kernel) (by decide)
  have htwo : live = 2 := by
    rw [hlive]
    decide +kernel
  rw [hlen, htwo]
  rfl

end ObjectCall
end ShardKv
