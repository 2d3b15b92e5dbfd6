import ShardKv.Foundations.Bytes
import ShardKv.Foundations.Tally
import Mathlib.Order.CompletePartialOrder

/-!
# Typed facades over one shared cache

Every `CodecShardMap` built by `from_shared_engine` puts a namespace before its
encoded keys, and the facades of several namespaces share one raw cache. A
namespace is written as its length, a `u32`, and its bytes. No lead of this form
is the start of another one, unless two lengths differ by a multiple of `2^32`,
so a facade cannot tell the shared cache from one of its own.

Keys and values stand here as their codecs have encoded them. A visit hands the
pairs to the decoder in the order of the tables, which the other facades' keys
may change, so its answer is the multiset of them.
-/
namespace ShardKv

open List

/-- `namespace_prefix_bytes`, with the length cut to a big-endian `u32`. -/
def namespacePrefixBytes (space : Bytes) : Bytes := (leBytes 4 space.length).reverse ++ space

/-- `from_shared_engine_with_options` refuses an empty namespace. -/
abbrev Namespace := {space : Bytes // space ≠ []}

structure RawEntry where
  value : Bytes
  expireAtMs : Option ℕ
  deriving DecidableEq

def RawEntry.live (nowMs : ℕ) (entry : RawEntry) : Bool := entry.expireAtMs.all (nowMs < ·)

/-- The point keys of the raw cache, over all of its shards. -/
abbrev SharedCache := FinMap Bytes RawEntry

inductive CodecReply
  | value (found : Option Bytes)
  | flag (answer : Bool)
  | done
  | visited (entries : Multiset (Bytes × Bytes))
  deriving DecidableEq

inductive PointOp
  | get
  | containsKey
  | insert (value : Bytes) (ttlMs : Option ℕ)
  | tryInsert (value : Bytes) (ttlMs : Option ℕ)
  | remove

inductive CodecOp
  | point (key : Bytes) (op : PointOp)
  | visitEntries

/-- What a point operation leaves in the cell of its key, and its answer. -/
def PointOp.run (nowMs : ℕ) (cell : Option RawEntry) : PointOp → Option RawEntry × CodecReply
  | get => (cell, .value ((cell.filter (·.live nowMs)).map (·.value)))
  | containsKey => (cell, .flag (cell.any (·.live nowMs)))
  | insert value ttlMs => (some ⟨value, ttlMs.map (nowMs + ·)⟩, .done)
  | tryInsert value ttlMs =>
    if cell.any (·.live nowMs) then (cell, .flag false)
    else (some ⟨value, ttlMs.map (nowMs + ·)⟩, .flag true)
  | remove => (none, .value ((cell.filter (·.live nowMs)).map (·.value)))

variable (lead key : Bytes)

def namespacedKey : Bytes := if lead.isEmpty then key else lead ++ key

def stripNamespace : Option Bytes :=
  if lead.isEmpty then some key
  else if lead.isPrefixOf key then some (key.drop lead.length) else none

@[simp] theorem namespacedKey_eq : namespacedKey lead key = lead ++ key := by
  cases lead <;> rfl

theorem stripNamespace_eq_some {lead raw key : Bytes} :
    stripNamespace lead raw = some key ↔ raw = lead ++ key := by
  cases lead with
  | nil => simp [stripNamespace]
  | cons byte lead =>
    simp only [stripNamespace, isEmpty_cons, Bool.false_eq_true, if_false,
      List.isPrefixOf_iff_prefix, Option.ite_none_right_eq_some, Option.some.injEq]
    constructor
    · rintro ⟨⟨rest, rfl⟩, rfl⟩
      rw [drop_left]
    · rintro rfl
      exact ⟨prefix_append _ _, drop_left⟩

namespace SharedCache

def put (cache : SharedCache) (key : Bytes) : Option RawEntry → SharedCache
  | some entry => cache.insert key entry
  | none => cache.erase key

theorem lookup_put (cache : SharedCache) (key other : Bytes) (cell : Option RawEntry) :
    (cache.put key cell).lookup other = if other = key then cell else cache.lookup other := by
  cases cell with
  | none => exact FinMap.lookup_erase_eq cache key other
  | some entry => exact FinMap.lookup_insert_eq cache key entry other

/-- The live entries of the cache that carry the lead, without it. -/
def visible (lead : Bytes) (nowMs : ℕ) (cache : SharedCache) : List (Bytes × RawEntry) :=
  (cache.entries.filter (·.2.live nowMs)).filterMap fun entry =>
    (stripNamespace lead entry.1).map (·, entry.2)

def visitEntries (lead : Bytes) (nowMs : ℕ) (cache : SharedCache) : Multiset (Bytes × Bytes) :=
  (cache.visible lead nowMs).map fun entry => (entry.1, entry.2.value)

def perform (lead : Bytes) (nowMs : ℕ) (cache : SharedCache) : CodecOp → SharedCache × CodecReply
  | .point key op =>
    let cell := op.run nowMs (cache.lookup (namespacedKey lead key))
    (cache.put (namespacedKey lead key) cell.1, cell.2)
  | .visitEntries => (cache, .visited (cache.visitEntries lead nowMs))

theorem mem_visible {lead key : Bytes} {nowMs : ℕ} {cache : SharedCache} {entry : RawEntry} :
    (key, entry) ∈ cache.visible lead nowMs ↔
      cache.lookup (lead ++ key) = some entry ∧ entry.live nowMs := by
  simp only [visible, mem_filterMap, mem_filter, Option.map_eq_some_iff, stripNamespace_eq_some]
  constructor
  · rintro ⟨raw, ⟨hmem, hlive⟩, _, hraw, hkey⟩
    cases hkey
    exact ⟨AList.mem_lookup_iff.mpr (hraw ▸ hmem), hlive⟩
  · rintro ⟨hlookup, hlive⟩
    exact ⟨⟨_, entry⟩, ⟨AList.mem_lookup_iff.mp hlookup, hlive⟩, key, rfl, rfl⟩

theorem nodup_visible (lead : Bytes) (nowMs : ℕ) (cache : SharedCache) :
    (cache.visible lead nowMs).Nodup := by
  have hentries : cache.entries.Nodup := List.NodupKeys.nodup cache.nodupKeys
  refine (hentries.filter _).filterMap fun first second pair hfirst hsecond => ?_
  simp only [Option.mem_def, Option.map_eq_some_iff, stripNamespace_eq_some] at hfirst hsecond
  obtain ⟨key, hkey, rfl⟩ := hfirst
  obtain ⟨key', hkey', hpair⟩ := hsecond
  obtain ⟨rfl, hentry⟩ := Prod.mk.inj hpair
  exact Sigma.ext (hkey.trans hkey'.symm) (heq_of_eq hentry.symm)

/-- The two caches hold the same under the lead. -/
def Agree (lead : Bytes) (cache alone : SharedCache) : Prop :=
  ∀ key, cache.lookup (lead ++ key) = alone.lookup (lead ++ key)

variable {lead other : Bytes} {cache alone : SharedCache}

section

variable (h : Agree lead cache alone) (nowMs : ℕ)
include h

theorem Agree.visitEntries_eq : cache.visitEntries lead nowMs = alone.visitEntries lead nowMs := by
  have hperm : (cache.visible lead nowMs).Perm (alone.visible lead nowMs) := by
    rw [perm_ext_iff_of_nodup (nodup_visible ..) (nodup_visible ..)]
    rintro ⟨key, entry⟩
    rw [mem_visible, mem_visible, h key]
  exact Multiset.coe_eq_coe.mpr (hperm.map _)

/-- A facade's own operation answers the same, and the caches still agree. -/
theorem Agree.perform (op : CodecOp) :
    (cache.perform lead nowMs op).2 = (alone.perform lead nowMs op).2 ∧
      Agree lead (cache.perform lead nowMs op).1 (alone.perform lead nowMs op).1 := by
  cases op with
  | visitEntries => exact ⟨congrArg CodecReply.visited (h.visitEntries_eq nowMs), h⟩
  | point key op =>
    rw [SharedCache.perform, SharedCache.perform, namespacedKey_eq, h key]
    refine ⟨rfl, fun key' => ?_⟩
    rw [lookup_put, lookup_put, h key']

/-- An operation under a lead that shares no key leaves the agreement. -/
theorem Agree.frame (op : CodecOp) (hfree : ∀ key key', lead ++ key ≠ other ++ key') :
    Agree lead (cache.perform other nowMs op).1 alone := by
  cases op with
  | visitEntries => exact h
  | point key op =>
    intro key'
    rw [SharedCache.perform, namespacedKey_eq, lookup_put, if_neg (hfree key' key), h key']

end
end SharedCache

structure CodecRequest where
  space : Namespace
  nowMs : ℕ
  op : CodecOp

/-- The answers the facade of one namespace gets in a run of several. -/
def observed (own : Namespace) : SharedCache → List CodecRequest → List CodecReply
  | _, [] => []
  | cache, request :: requests =>
    let next := cache.perform (namespacePrefixBytes request.space) request.nowMs request.op
    if request.space = own then next.2 :: observed own next.1 requests
    else observed own next.1 requests

/-- Each facade gets the answers its own requests would get without the others. -/
def Isolated (left right : Namespace) : Prop := ∀ requests,
    (∀ request ∈ requests, request.space = left ∨ request.space = right) → ∀ own ∈ [left, right],
        observed own ∅ requests = observed own ∅ (requests.filter (·.space = own))

/-- The keys of the raw cache that stand for a key of the namespace. -/
def keyImage (space : Namespace) : Set Bytes :=
  Set.range (namespacedKey (namespacePrefixBytes space))

/-- The `u32` lengths are equal, and one namespace is the start of the other. -/
def Overlapping (left right : Namespace) : Prop :=
  left.1.length % 2 ^ 32 = right.1.length % 2 ^ 32 ∧ (left.1 <+: right.1 ∨ right.1 <+: left.1)

theorem observed_alone {own : Namespace} {requests : List CodecRequest}
    (hfree : ∀ request ∈ requests, request.space ≠ own →
      Disjoint (keyImage own) (keyImage request.space))
    {cache alone : SharedCache} (h : cache.Agree (namespacePrefixBytes own) alone) :
    observed own cache requests = observed own alone (requests.filter (·.space = own)) := by
  induction requests generalizing cache alone with
  | nil => rfl
  | cons request requests ih =>
    have ih' := @ih fun later hlater => hfree later (mem_cons_of_mem _ hlater)
    by_cases hown : request.space = own
    · subst hown
      obtain ⟨hreply, hagree⟩ := h.perform request.nowMs request.op
      simp only [observed, filter_cons, decide_true, if_true, hreply, ih' hagree]
    · have hdisjoint := Set.disjoint_left.mp (hfree request mem_cons_self hown)
      have hagree := h.frame request.nowMs request.op
        (fun key key' heq => hdisjoint ⟨key, namespacedKey_eq ..⟩
          ⟨key', (namespacedKey_eq ..).trans heq.symm⟩)
      simp only [observed, filter_cons, hown, decide_false, Bool.false_eq_true, if_false,
        ih' hagree]

theorem leBytes_eq_iff {width n m : ℕ} :
    leBytes width n = leBytes width m ↔ n % 256 ^ width = m % 256 ^ width := by
  rw [← leValue_leBytes, ← leValue_leBytes]
  refine ⟨congrArg leValue, fun h => ?_⟩
  have hfirst := leBytes_leValue (leBytes width n)
  have hsecond := leBytes_leValue (leBytes width m)
  rw [length_leBytes] at hfirst hsecond
  rw [← hfirst, h, hsecond]

/-- The leads start one another as the namespaces do, once the lengths agree. -/
theorem namespacePrefixBytes_isPrefix {left right : Bytes} :
    namespacePrefixBytes left <+: namespacePrefixBytes right ↔
      left.length % 2 ^ 32 = right.length % 2 ^ 32 ∧ left <+: right := by
  have hlengths : (leBytes 4 left.length).reverse = (leBytes 4 right.length).reverse ↔
      left.length % 2 ^ 32 = right.length % 2 ^ 32 := by
    rw [reverse_inj, leBytes_eq_iff]
    norm_num
  rw [← hlengths]
  constructor
  · rintro ⟨rest, h⟩
    simp only [namespacePrefixBytes, append_assoc] at h
    obtain ⟨hlength, hrest⟩ := append_inj h (by simp)
    exact ⟨hlength, rest, hrest⟩
  · rintro ⟨hlength, hstart⟩
    unfold namespacePrefixBytes
    rw [hlength]
    exact (prefix_append_right_inj _).mpr hstart

variable {left right : Namespace}

/-- One raw key stands for a key of both namespaces. -/
theorem overlapping_iff_shared : Overlapping left right ↔
      ∃ key key', namespacePrefixBytes left ++ key = namespacePrefixBytes right ++ key' := by
  constructor
  · rintro ⟨hlength, hstart | hstart⟩
    · obtain ⟨rest, h⟩ := namespacePrefixBytes_isPrefix.mpr ⟨hlength, hstart⟩
      exact ⟨rest, [], by rw [h, append_nil]⟩
    · obtain ⟨rest, h⟩ := namespacePrefixBytes_isPrefix.mpr ⟨hlength.symm, hstart⟩
      exact ⟨[], rest, by rw [h, append_nil]⟩
  · rintro ⟨key, key', hshared⟩
    rcases List.prefix_or_prefix_of_prefix ⟨key, hshared⟩ ⟨key', rfl⟩ with h | h
    · exact ⟨(namespacePrefixBytes_isPrefix.mp h).1, .inl (namespacePrefixBytes_isPrefix.mp h).2⟩
    · exact ⟨(namespacePrefixBytes_isPrefix.mp h).1.symm,
        .inr (namespacePrefixBytes_isPrefix.mp h).2⟩

theorem disjoint_keyImage (h : ¬ Overlapping left right) :
    Disjoint (keyImage left) (keyImage right) := by
  rw [Set.disjoint_left]
  rintro _ ⟨key, rfl⟩ ⟨key', hshared⟩
  rw [namespacedKey_eq, namespacedKey_eq] at hshared
  exact h (overlapping_iff_shared.mpr ⟨key, key', hshared.symm⟩)

/-- What one facade inserts under a shared key, the other one finds. -/
theorem not_isolated_of_overlapping (hne : left ≠ right)
    (h : Overlapping left right) : ¬ Isolated left right := by
  intro hisolated
  obtain ⟨key, key', hshared⟩ := overlapping_iff_shared.mp h
  have hfound := hisolated
    [⟨right, 0, .point key' (.insert [] none)⟩, ⟨left, 0, .point key .containsKey⟩]
    (by simp) left mem_cons_self
  simp [observed, SharedCache.perform, SharedCache.lookup_put, PointOp.run, RawEntry.live,
    hshared, hne.symm] at hfound

/-- Facades of distinct namespaces do not see one another, whatever they ask and in
whatever order, unless one of two namespaces is longer by a multiple of `2^32` bytes
and starts with the other. -/
theorem namespaces_isolated_iff (left right : Namespace) (hne : left ≠ right) :
    (Isolated left right ∧ Disjoint (keyImage left) (keyImage right) ∧
      ∀ (space : Namespace) (key : Bytes), stripNamespace (namespacePrefixBytes space)
          (namespacedKey (namespacePrefixBytes space) key) = some key) ↔
      ¬ Overlapping left right := by
  constructor
  · rintro ⟨hisolated, -⟩ hoverlap
    exact not_isolated_of_overlapping hne hoverlap hisolated
  · intro hfree
    have hdisjoint := disjoint_keyImage hfree
    have hstrip : ∀ (space : Namespace) (key : Bytes), stripNamespace (namespacePrefixBytes space)
          (namespacedKey (namespacePrefixBytes space) key) = some key := by
      intro space key
      rw [stripNamespace_eq_some, namespacedKey_eq]
    refine ⟨fun requests hspaces own hown => ?_, hdisjoint, hstrip⟩
    refine observed_alone (fun request hmem hother => ?_) fun _ => rfl
    have hspace := hspaces request hmem
    have hmine : own = left ∨ own = right := by simpa using hown
    rcases hmine with rfl | rfl
    · rwa [hspace.resolve_left hother]
    · rw [hspace.resolve_right hother]
      exact hdisjoint.symm

/-- A namespace that starts with the other one is kept apart by its length. -/
theorem namespaces_isolated_iff_nested : Isolated ⟨[1], nofun⟩ ⟨[1, 1], nofun⟩ :=
  ((namespaces_isolated_iff ⟨[1], nofun⟩ ⟨[1, 1], nofun⟩ (by decide)).mpr
    (fun h => absurd h.1 (by decide))).1

/-- The namespace of one zero byte and `more` others. -/
def zeroNamespace (more : ℕ) : Namespace := ⟨0 :: List.replicate more 0, nofun⟩

theorem not_isolated_zeroNamespace {more : ℕ} (hpos : more ≠ 0) (hmod : more % 2 ^ 32 = 0) :
    zeroNamespace 0 ≠ zeroNamespace more ∧ ¬ Isolated (zeroNamespace 0) (zeroNamespace more) := by
  have hlength : (zeroNamespace more).1.length = more + 1 := by
    rw [zeroNamespace, length_cons, length_replicate]
  have hne : zeroNamespace 0 ≠ zeroNamespace more := by
    intro h
    rw [← h] at hlength
    exact hpos (Nat.succ.inj hlength).symm
  refine ⟨hne, not_isolated_of_overlapping hne ⟨?_, .inl ⟨List.replicate more 0, rfl⟩⟩⟩
  rw [hlength, Nat.add_mod, hmod]
  rfl

/-- A namespace of `2^32 + 1` bytes has the lead of its own first byte. -/
theorem long_namespace_not_isolated : zeroNamespace 0 ≠ zeroNamespace (2 ^ 32) ∧
      ¬ Isolated (zeroNamespace 0) (zeroNamespace (2 ^ 32)) :=
  not_isolated_zeroNamespace (by decide) (by decide)

end ShardKv
