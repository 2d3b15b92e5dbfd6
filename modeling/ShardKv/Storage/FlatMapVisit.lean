import ShardKv.Storage.FlatMapRead

/-!
# Visitors and semantic search of the flat map

A visitor is a closure with state, asked once for each item until it declines. The
tables are walked in the order of their keys. The semantic index offers candidates
with scores; which rows it offers for a query, and in which order, does not depend
on the stored values and is given with the index.
-/
namespace ShardKv

/-- A stateful closure is called on each item until it answers `false`. -/
def visitWhile {α β : Type} (visit : α → β → Bool × α) : List β → α → Bool × α
  | [], state => (true, state)
  | item :: items, state =>
    match visit state item with
    | (true, state) => visitWhile visit items state
    | (false, state) => (false, state)

namespace FlatMap

variable (map : FlatMap) (nowMs : ℕ)

def residentReadableAt (key : Bytes) : Bool :=
  (map.entries.lookup key).any fun entry => !entry.isExpired nowMs && !entry.isProtected

def remoteReadableAt (key : Bytes) : Bool :=
  (map.remoteEntries.lookup key).any fun remote => !remote.isExpired nowMs && !remote.isProtected

def snapshotKeys : List Bytes := map.entries.keys.filter (map.residentReadableAt nowMs) ++
    map.remoteEntries.keys.filter (map.remoteReadableAt nowMs)

def visitKeys {α : Type} (visit : α → Bytes → Bool × α) (state : α) : Bool × α :=
  match visitWhile visit (map.entries.keys.filter (map.residentReadableAt nowMs)) state with
  | (false, state) => (false, state)
  | (true, state) =>
    visitWhile visit (map.remoteEntries.keys.filter (map.remoteReadableAt nowMs)) state

/-- The entries an entry visitor sees. -/
def readableEntries : List (Bytes × Bytes × Option ℕ) := map.entries.keys.filterMap fun key =>
    ((map.findReadable key).filter fun entry => !entry.isExpired nowMs).map fun entry =>
      (key, entry.value, entry.expireAtMs)

def visitEntries {α : Type} (visit : α → Bytes × Bytes × Option ℕ → Bool × α) (state : α) :
    Except String Bool × α :=
  match visitWhile visit (map.readableEntries nowMs) state with
  | (false, state) => (.ok false, state)
  | (true, state) =>
    if map.remoteEntries.keys.any (map.remoteReadableAt nowMs) then
      (.error "remote object-overflow values require the fallible snapshot visitor", state)
    else (.ok true, state)

/-- The loop of a cursor scan: positions count hidden entries, visits do not. -/
def scanLoop {α : Type} (limit : ℕ) (visit : α → Bytes → Bool × α) :
    ℕ → List (Option Bytes) → ℕ → ℕ → α → Option ℕ × ℕ × ℕ × α
  | _, [], visited, emitted, state => (none, visited, emitted, state)
  | index, none :: items, visited, emitted, state =>
    scanLoop limit visit (index + 1) items visited emitted state
  | index, some key :: items, visited, emitted, state =>
    let (kept, state) := visit state key
    let visited := visited + 1
    let emitted := if kept then emitted + 1 else emitted
    if limit ≤ visited then (some (index + 1), visited, emitted, state)
    else scanLoop limit visit (index + 1) items visited emitted state

def scanKeysVisit {α : Type} (offset limit nowMs visited emitted : ℕ) (visit : α → Bytes → Bool × α)
    (state : α) : Option ℕ × ℕ × ℕ × α :=
  let items :=
    map.entries.keys.map (fun key => if map.residentReadableAt nowMs key then some key else none) ++
      map.remoteEntries.keys.map fun key =>
        if map.remoteReadableAt nowMs key then some key else none
  scanLoop limit visit offset (items.drop offset) visited emitted state

end FlatMap

structure SemanticIndexCandidate (Score : Type) where
  id : ℕ
  key : Bytes
  score : Score

structure SemanticMatch (Score : Type) where
  key : Bytes
  value : Bytes
  governance : Option Bytes
  score : Score
  deriving DecidableEq

/-- For a query: the rows with exactly its embedding, and the rows that are scored when none
of these is accepted. -/
structure SemanticIndex (Query Score : Type) where
  exact : Query → List (SemanticIndexCandidate Score)
  ranked : Query → Score → List (SemanticIndexCandidate Score)

/-- The best accepted candidate; a candidate below the best score so far is not asked. -/
def searchRanked {Score T : Type} [LT Score] [DecidableLT Score]
    (accept : SemanticIndexCandidate Score → Option T) :
    List (SemanticIndexCandidate Score) → Score → Option T → Option T
  | [], _, best => best
  | candidate :: candidates, bestScore, best =>
    if candidate.score < bestScore then searchRanked accept candidates bestScore best
    else
      match accept candidate with
      | some accepted => searchRanked accept candidates candidate.score (some accepted)
      | none => searchRanked accept candidates bestScore best

def SemanticIndex.searchExact {Query Score T : Type} [LT Score] [DecidableLT Score]
    (index : SemanticIndex Query Score) (query : Query) (minScore : Score)
    (accept : SemanticIndexCandidate Score → Option T) : Option T :=
  ((index.exact query).filter fun candidate => !decide (candidate.score < minScore)).findSome?
    accept

def SemanticIndex.search {Query Score T : Type} [LT Score] [DecidableLT Score]
    (index : SemanticIndex Query Score) (query : Query) (minScore : Score)
    (accept : SemanticIndexCandidate Score → Option T) : Option T :=
  match index.searchExact query minScore accept with
  | some accepted => some accepted
  | none => searchRanked accept (index.ranked query minScore) minScore none

/-- A flat map with its semantic index and the ids of the tokens of its entries. -/
structure SemanticFlatMap (Query Score : Type) where
  map : FlatMap
  index : SemanticIndex Query Score
  tokenId : Bytes → ℕ

namespace SemanticFlatMap

variable {Query Score : Type} [LT Score] [DecidableLT Score]
  (store : SemanticFlatMap Query Score) (query : Query) (minScore : Score) (nowMs : ℕ)

variable (governanceFilter : Option Bytes → Bool)

def acceptSemanticCandidate
    (candidate : SemanticIndexCandidate Score) : Option (SemanticMatch Score) :=
  match store.map.entries.lookup candidate.key with
  | none => none
  | some entry =>
    if entry.isExpired nowMs then none
    else if entry.semanticIndexToken.isNone then none
    else if store.tokenId candidate.key ≠ candidate.id then none
    else if !governanceFilter entry.governance then none
    else
      some
        { key := candidate.key
          value := entry.value
          governance := entry.governance
          score := candidate.score }

def semanticSearchWithGovernanceFilter :
    Option (SemanticMatch Score) :=
  store.index.search query minScore (store.acceptSemanticCandidate nowMs governanceFilter)

/-- The plain search accepts every candidate. -/
def semanticSearch : Option (SemanticMatch Score) :=
  store.semanticSearchWithGovernanceFilter query minScore nowMs fun _ => true

def semanticSearchExactWithGovernanceFilter :
    Option (SemanticMatch Score) :=
  store.index.searchExact query minScore (store.acceptSemanticCandidate nowMs governanceFilter)

def semanticSearchExact : Option (SemanticMatch Score) :=
  store.semanticSearchExactWithGovernanceFilter query minScore nowMs fun _ => true

end SemanticFlatMap
end ShardKv
