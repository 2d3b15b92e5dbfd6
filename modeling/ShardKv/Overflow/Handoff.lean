import ShardKv.Foundations.History
import ShardKv.Overflow.OverflowKey
import ShardKv.Overflow.Placement

/-!
# A key during a change of membership

While the membership changes, a key has a current owner and may have a previous one. A
write goes to the current owner and then deletes the previous copy, a read falls back to
the previous owner when the current one has nothing, and a handoff copies the previous
value over. Each of these node calls can fail on its own, without effect.

A copy remembers the call that wrote it. No function reads that; it is what "older" means.
-/
namespace ShardKv

open Option

namespace Placement.KvOverflowCluster

variable (cluster : KvOverflowCluster)

def previousOwnerIndex (keyHash : ℕ) : Option ℕ :=
  if cluster.previousNodes.isEmpty then none
  else
    let slot := cluster.slotForHashOnShard keyHash
    let ownerIndex := cluster.previousSlotOwners.getD slot 0
    let owner := cluster.previousNodes[ownerIndex]?
    let current := cluster.nodes[cluster.slotOwners.getD slot 0]?
    if owner.map (·.id) ≠ current.map (·.id) then some ownerIndex else none

end Placement.KvOverflowCluster

variable {β : Type}

/-- A value on a node; the copies that were there from the beginning are born at zero, and the call
at position `i` writes copies that are born at `i + 1`. -/
structure NodeCopy (β : Type) where
  written : OverflowValue β
  born : ℕ
  deriving DecidableEq

/-- The envelope of a value writes zero for no deadline. -/
def OverflowValue.isOver (written : OverflowValue β) (nowMs : ℕ) : Bool :=
  written.expireAtMs.any fun deadline => deadline ≠ 0 && deadline ≤ nowMs

/-- A call on the key. The flags are the outcomes of its node calls, in the order in which they are
made; those that are not reached play no part. -/
inductive HandoffCall (β : Type)
  | put (written : OverflowValue β) (current previous : Bool)
  | delete (current previous : Bool)
  | get (nowMs : ℕ) (current previous : Bool)
  | handoff (nowMs : ℕ) (current previous write verify delete : Bool)
  deriving DecidableEq

/-- The value of a put. -/
def HandoffCall.puts : HandoffCall β → Option (OverflowValue β)
  | .put written _ _ => some written
  | _ => none

def HandoffCall.deletes : HandoffCall β → Bool
  | .delete _ _ => true
  | _ => false

inductive HandoffReply (β : Type)
  | done
  | failed
  | found (copy : Option (NodeCopy β))
  deriving DecidableEq

/-- The two cells of a key, and what was called and answered so far. -/
structure HandoffKey (β : Type) where
  current : Option (NodeCopy β) := none
  previous : Option (NodeCopy β) := none
  events : List (HandoffCall β × HandoffReply β) := []

namespace HandoffKey

section Calls

-- whether `previous_owner_index` names a node for the key
variable (moved : Bool) (s : HandoffKey β)

def live (nowMs : ℕ) (cell : Option (NodeCopy β)) : Option (NodeCopy β) :=
  cell.filter fun copy => !copy.written.isOver nowMs

def getFromPrevious (nowMs : ℕ) (previous : Bool) : HandoffReply β :=
  if !moved then .found none
  else if previous then .found (live nowMs s.previous)
  else .failed

def getOnShard (nowMs : ℕ) (current previous : Bool) : HandoffReply β :=
  if !current then .failed
  else
    match live nowMs s.current with
    | some copy => .found (some copy)
    | none => s.getFromPrevious moved nowMs previous

/-- The delete on the previous owner that ends a write. -/
def deletePrevious (previous : Bool) : HandoffKey β × HandoffReply β :=
  if !moved then (s, .done)
  else if previous then ({ s with previous := none }, .done)
  else (s, .failed)

def putUntilOnShard (written : OverflowValue β) (current previous : Bool) :
    HandoffKey β × HandoffReply β :=
  if !current then (s, .failed)
  else
    { s with current := some ⟨written, s.events.length + 1⟩ }.deletePrevious moved previous

/-- Both deletes are tried, whatever becomes of the first one. -/
def deleteOnShard (current previous : Bool) : HandoffKey β × HandoffReply β :=
  let afterCurrent := if current then { s with current := none } else s
  let afterPrevious := afterCurrent.deletePrevious moved previous
  (afterPrevious.1, if current then afterPrevious.2 else .failed)

variable [DecidableEq β]

/-- `handoff_value_on_shard` with the value that was read, under its own deadline. -/
def handoffValueOnShard (s : HandoffKey β) (nowMs : ℕ) (copy : NodeCopy β)
    (write verify delete : Bool) : HandoffKey β × HandoffReply β :=
  if !write then (s, .failed)
  else
    let s := { s with current := some copy }
    if !verify then (s, .failed)
    else
      let verified := (live nowMs s.current).any fun stored =>
        stored.written.value = copy.written.value &&
          stored.written.governance = copy.written.governance
      if !verified then (s, .failed) else s.deletePrevious moved delete

/-- The handoff of one key: it reads the value and copies it to the current owner. -/
def synchronizeHandoff (s : HandoffKey β) (nowMs : ℕ)
    (current previous write verify delete : Bool) : HandoffKey β × HandoffReply β :=
  match s.getOnShard moved nowMs current previous with
  | .found (some copy) => s.handoffValueOnShard moved nowMs copy write verify delete
  | _ => (s, .failed)

def call (s : HandoffKey β) : HandoffCall β → HandoffKey β × HandoffReply β
  | .put written current previous => s.putUntilOnShard moved written current previous
  | .delete current previous => s.deleteOnShard moved current previous
  | .get nowMs current previous => (s, s.getOnShard moved nowMs current previous)
  | .handoff nowMs current previous write verify delete =>
    s.synchronizeHandoff moved nowMs current previous write verify delete

def step (s : HandoffKey β) (c : HandoffCall β) : HandoffKey β :=
  let out := s.call moved c
  { out.1 with events := s.events ++ [(c, out.2)] }

end Calls

section Wanted

variable (events : List (HandoffCall β × HandoffReply β)) (position : ℕ)

/-- The copy that a successful put wrote or a successful get returned. -/
def shown : HandoffCall β × HandoffReply β → Option (NodeCopy β)
  | (.put written _ _, .done) => some ⟨written, position + 1⟩
  | (.get _ _ _, .found copy) => copy
  | _ => none

/-- A put of this value was called, whether it succeeded or not. -/
def PutAt (written : OverflowValue β) : Prop :=
  ∃ event, events[position]? = some event ∧ event.1.puts = some written

/-- A delete was called, whether it succeeded or not. -/
def DeleteAt : Prop :=
  ∃ event, events[position]? = some event ∧ event.1.deletes = true

/-- What a get at position `later` that answers `found` owes to a copy that was there before the
call at position `first`. It does not return an older one, and it does not find the key missing
unless a delete was called in between, or one of the values written since then has expired. -/
structure RightAbout (first later nowMs : ℕ) (copy : NodeCopy β) (found : Option (NodeCopy β)) :
    Prop where
  not_older : ∀ other ∈ found, copy.born ≤ other.born
  not_missing : found = none → copy.written.isOver nowMs = true ∨
    ∃ position, first ≤ position ∧ position < later ∧ (DeleteAt events position ∨
      ∃ written, PutAt events position written ∧ written.isOver nowMs = true)

/-- Every successful get is right about everything before it, and what it returns was put after
the last successful delete. -/
def Faithful (initial : Option (NodeCopy β)) : Prop := ∀ later nowMs current previous found,
    events[later]? = some (.get nowMs current previous, .found found) →
      (∀ copy ∈ initial, RightAbout events 0 later nowMs copy found) ∧
        ∀ earlier event, earlier < later → events[earlier]? = some event →
          (∀ copy ∈ shown earlier event, RightAbout events (earlier + 1) later nowMs copy found) ∧
          (event.1.deletes = true → event.2 = .done →
            ∀ other ∈ found, ∃ position, earlier < position ∧ position < later ∧
              PutAt events position other.written)

end Wanted

/-- A put that reaches the current owner must also reach the previous one, unless nothing is
there. -/
def Safe (moved : Bool) (s : HandoffKey β) : HandoffCall β → Prop
  | .put _ true false => moved = true → s.previous = none
  | _ => True

/-- The copy that a get comes to first. -/
def front (s : HandoffKey β) : Option (NodeCopy β) := s.current.or s.previous

/-- Two copies are the same one, and a key that has not moved has no previous copy. -/
structure OneCopy (moved : Bool) (s : HandoffKey β) : Prop where
  same : ∀ copy, s.current = some copy → s.previous = none ∨ s.previous = some copy
  unmoved : moved = false → s.previous = none

theorem live_zero (cell : Option (NodeCopy β)) : live 0 cell = cell := by
  cases cell with
  | none => rfl
  | some copy =>
    have hlive : copy.written.isOver 0 = false := by
      cases hdeadline : copy.written.expireAtMs <;> simp [OverflowValue.isOver, hdeadline]
    simp [live, hlive]

theorem live_or (nowMs : ℕ) (current previous : Option (NodeCopy β))
    (h : ∀ copy, current = some copy → previous = none ∨ previous = some copy) :
    (live nowMs current).or (live nowMs previous) = live nowMs (current.or previous) := by
  cases current with
  | none => rfl
  | some copy =>
    rcases h copy rfl with rfl | rfl
    · simp [live]
    · simp [live]

section Front

variable {moved : Bool} {s : HandoffKey β} {c : HandoffCall β}

/-- A successful get answers with the copy that counts, as long as it is live. -/
theorem found_of_getOnShard (h : s.OneCopy moved) {nowMs : ℕ} {current previous : Bool}
    {found : Option (NodeCopy β)}
    (hget : s.getOnShard moved nowMs current previous = .found found) :
    found = live nowMs s.front := by
  rw [front, ← live_or nowMs _ _ h.same]
  rw [getOnShard] at hget
  split_ifs at hget
  split at hget
  · next copy hlive =>
    cases hget
    rw [hlive, some_or]
  · next hlive =>
    rw [hlive, none_or]
    rw [getFromPrevious] at hget
    split_ifs at hget with hmoved hreached
    · cases hget
      rw [h.unmoved (by simpa using hmoved)]
      rfl
    · cases hget
      rfl

theorem OneCopy.previous_of_front (h : s.OneCopy moved) {copy : NodeCopy β}
    (hfront : s.front = some copy) : s.previous = none ∨ s.previous = some copy := by
  cases hcurrent : s.current with
  | none =>
    rw [front, hcurrent, none_or] at hfront
    exact .inr hfront
  | some =>
    rw [front, hcurrent, some_or] at hfront
    cases hfront
    exact h.same _ hcurrent

/-- What one call does to the copy that counts. -/
structure Moves (moved : Bool) (s s' : HandoffKey β) (c : HandoffCall β) (reply : HandoffReply β) :
    Prop where
  oneCopy : s'.OneCopy moved
  events : s'.events = s.events
  front : s'.front = s.front ∨
    (∃ written, c.puts = some written ∧ s'.front = some ⟨written, s.events.length + 1⟩) ∨
      c.deletes = true ∧ s'.front = none
  put_done : ∀ written, c.puts = some written → reply = .done →
    s'.front = some ⟨written, s.events.length + 1⟩
  delete_done : c.deletes = true → reply = .done → s'.front = none

/-- A call that neither puts nor deletes leaves the copy that counts where it is. -/
theorem Moves.of_kept {s' : HandoffKey β} (reply : HandoffReply β) (hputs : c.puts = none)
    (hdeletes : c.deletes = false) (hone : s'.OneCopy moved) (hevents : s'.events = s.events)
    (hfront : s'.front = s.front) : Moves moved s s' c reply := by
  refine ⟨hone, hevents, .inl hfront, ?_, ?_⟩
  · intro written hwritten
    rw [hputs] at hwritten
    cases hwritten
  · intro hdelete
    rw [hdeletes] at hdelete
    cases hdelete

section

variable (h : s.OneCopy moved)
include h

theorem putUntilOnShard_moves (written : OverflowValue β)
    (current previous : Bool) (hsafe : Safe moved s (.put written current previous)) :
    Moves moved s (s.putUntilOnShard moved written current previous).1
      (.put written current previous) (s.putUntilOnShard moved written current previous).2 := by
  cases current with
  | false => exact ⟨h, rfl, .inl rfl, by simp [putUntilOnShard], by simp [putUntilOnShard]⟩
  | true =>
    -- whichever way the second call goes, nothing is left with the previous owner
    have hlast : (s.putUntilOnShard moved written true previous).1 =
        { s with current := some ⟨written, s.events.length + 1⟩, previous := none } := by
      cases moved with
      | false => simp [putUntilOnShard, deletePrevious, h.unmoved rfl]
      | true =>
        cases previous with
        | true => rfl
        | false => simp [putUntilOnShard, deletePrevious, hsafe rfl]
    rw [hlast]
    refine ⟨⟨fun _ _ => .inl rfl, fun _ => rfl⟩, rfl, .inr (.inl ⟨written, rfl, rfl⟩), ?_, ?_⟩
    · intro other hother _
      cases hother
      rfl
    · exact fun hdelete => nomatch hdelete

theorem deleteOnShard_moves (current previous : Bool) :
    Moves moved s (s.deleteOnShard moved current previous).1 (.delete current previous)
      (s.deleteOnShard moved current previous).2 := by
  -- one copy is gone, and the other one is either gone too or the copy that counts
  have hdropped : ∀ {s' : HandoffKey β} {reply : HandoffReply β}, s'.OneCopy moved →
      s'.events = s.events → (s'.front = s.front ∨ s'.front = none) →
        (reply = .done → s'.front = none) → Moves moved s s' (.delete current previous) reply := by
    intro s' reply hone hevents hfront hdone
    refine ⟨hone, hevents, ?_, (fun _ hputs => nomatch hputs), fun _ => hdone⟩
    rcases hfront with hfront | hfront
    · exact .inl hfront
    · exact .inr (.inr ⟨rfl, hfront⟩)
  cases current with
  | false =>
    have hfailed : (s.deleteOnShard moved false previous).2 ≠ .done := by simp [deleteOnShard]
    cases moved with
    | false => exact hdropped h rfl (.inl rfl) fun hdone => absurd hdone hfailed
    | true =>
      cases previous with
      | false => exact hdropped h rfl (.inl rfl) fun hdone => absurd hdone hfailed
      | true =>
        refine hdropped ⟨fun _ _ => .inl rfl, fun _ => rfl⟩ rfl ?_
          fun hdone => absurd hdone hfailed
        cases hcurrent : s.current with
        | none => exact .inr (by simp [deleteOnShard, deletePrevious, front, hcurrent])
        | some => exact .inl (by simp [deleteOnShard, deletePrevious, front, hcurrent])
  | true =>
    cases moved with
    | false =>
      refine hdropped ⟨(fun _ hcurrent => nomatch hcurrent), h.unmoved⟩ rfl ?_ ?_
      · exact .inr (h.unmoved rfl)
      · exact fun _ => h.unmoved rfl
    | true =>
      cases previous with
      | true =>
        exact hdropped ⟨fun _ _ => .inl rfl, fun _ => rfl⟩ rfl (.inr rfl) fun _ => rfl
      | false =>
        refine hdropped ⟨(fun _ hcurrent => nomatch hcurrent), h.unmoved⟩ rfl ?_ ?_
        · cases hfront : s.front with
          | none => exact .inr (or_eq_none_iff.mp hfront).2
          | some => exact (h.previous_of_front hfront).symm
        · exact fun hdone => nomatch hdone

theorem handoffValueOnShard_moves [DecidableEq β] {copy : NodeCopy β}
    (hfront : s.front = some copy) (nowMs : ℕ) (write verify delete : Bool) (hputs : c.puts = none)
    (hdeletes : c.deletes = false) :
    Moves moved s (s.handoffValueOnShard moved nowMs copy write verify delete).1 c
      (s.handoffValueOnShard moved nowMs copy write verify delete).2 := by
  have hkept : ∀ {s' : HandoffKey β} {reply : HandoffReply β}, s'.OneCopy moved →
      s'.events = s.events → s'.front = some copy → Moves moved s s' c reply := by
    intro s' reply hone hevents hsame
    exact Moves.of_kept reply hputs hdeletes hone hevents (hsame.trans hfront.symm)
  have hcopied : ({ s with current := some copy } : HandoffKey β).OneCopy moved := by
    refine ⟨?_, h.unmoved⟩
    rintro other ⟨⟩
    exact h.previous_of_front hfront
  simp only [handoffValueOnShard]
  split_ifs
  · exact hkept h rfl hfront
  · exact hkept hcopied rfl rfl
  · exact hkept hcopied rfl rfl
  · rw [deletePrevious]
    split_ifs
    · exact hkept hcopied rfl rfl
    · exact hkept ⟨fun _ _ => .inl rfl, fun _ => rfl⟩ rfl rfl
    · exact hkept hcopied rfl rfl

theorem call_moves [DecidableEq β] (hsafe : Safe moved s c) :
    Moves moved s (s.call moved c).1 c (s.call moved c).2 := by
  cases c with
  | put => exact putUntilOnShard_moves h _ _ _ hsafe
  | delete => exact deleteOnShard_moves h ..
  | get => exact Moves.of_kept _ rfl rfl h rfl rfl
  | handoff nowMs current previous write verify delete =>
    rw [call, synchronizeHandoff]
    split
    · next copy hget =>
      have hfound := found_of_getOnShard h hget
      have hfront : s.front = some copy := by
        rw [live] at hfound
        exact (filter_eq_some_iff.mp hfound.symm).1
      exact handoffValueOnShard_moves h hfront nowMs write verify delete rfl rfl
    · exact Moves.of_kept _ rfl rfl h rfl rfl

end
end Front

/-- The copy that counts is not older than `copy`. It is `copy` itself, or was put at `first` or
later, unless a delete was called since then. -/
structure Remembers (s : HandoffKey β) (first : ℕ) (copy : NodeCopy β) : Prop where
  not_older : ∀ other, s.front = some other → copy.born ≤ other.born
  present : (∃ position, first ≤ position ∧ DeleteAt s.events position) ∨
    ∃ other, s.front = some other ∧
      (other = copy ∨ ∃ position, first ≤ position ∧ PutAt s.events position other.written)

/-- Nothing is left from before `first`. -/
def Forgot (s : HandoffKey β) (first : ℕ) : Prop :=
  ∀ other, s.front = some other → ∃ position, first ≤ position ∧
    PutAt s.events position other.written

section Append

variable {events : List (HandoffCall β × HandoffReply β)} {position : ℕ}

section

variable {p : HandoffCall β × HandoffReply β → Prop}
  (h : ∃ event, events[position]? = some event ∧ p event)
include h

theorem lt_of_event : position < events.length := by
  obtain ⟨event, hevent, -⟩ := h
  exact (List.getElem?_eq_some_iff.mp hevent).1

theorem event_append (later : List (HandoffCall β × HandoffReply β)) :
    ∃ event, (events ++ later)[position]? = some event ∧ p event := by
  rwa [List.getElem?_append_left (lt_of_event h)]

end

variable (later : List (HandoffCall β × HandoffReply β))

theorem PutAt.append {written : OverflowValue β} (h : PutAt events position written) :
    PutAt (events ++ later) position written :=
  event_append h later

theorem DeleteAt.append (h : DeleteAt events position) : DeleteAt (events ++ later) position :=
  event_append h later

/-- An answer that comes from the copy that counts is right about what the state remembers. -/
theorem Remembers.rightAbout {s : HandoffKey β} {first : ℕ} {copy : NodeCopy β}
    (h : s.Remembers first copy) (nowMs : ℕ) :
    RightAbout (s.events ++ later) first s.events.length nowMs copy (live nowMs s.front) := by
  refine ⟨?_, ?_⟩
  · intro other hother
    exact h.not_older other (filter_eq_some_iff.mp hother).1
  · intro hmissing
    rcases h.present with ⟨position, hposition, hdelete⟩ | ⟨other, hother, hsame⟩
    · exact .inr ⟨position, hposition, lt_of_event hdelete, .inl (hdelete.append later)⟩
    · have hover : other.written.isOver nowMs = true := by
        rw [live, hother] at hmissing
        simpa using filter_eq_none_iff.mp hmissing
      rcases hsame with rfl | ⟨position, hposition, hput⟩
      · exact .inl hover
      · exact .inr ⟨position, hposition, lt_of_event hput,
          .inr ⟨_, hput.append later, hover⟩⟩

theorem RightAbout.append {first nowMs : ℕ} {copy : NodeCopy β} {found : Option (NodeCopy β)}
    (h : RightAbout events first position nowMs copy found) :
    RightAbout (events ++ later) first position nowMs copy found := by
  refine ⟨h.not_older, fun hmissing => ?_⟩
  rcases h.not_missing hmissing with hover | ⟨between, hfirst, hlater, hcause⟩
  · exact .inl hover
  · refine .inr ⟨between, hfirst, hlater, ?_⟩
    rcases hcause with hdelete | ⟨written, hput, hover⟩
    · exact .inl (hdelete.append later)
    · exact .inr ⟨written, hput.append later, hover⟩

end Append

section Step

variable [DecidableEq β] {moved : Bool} {s : HandoffKey β} {c : HandoffCall β} {first : ℕ}

theorem events_step : (s.step moved c).events = s.events ++ [(c, (s.call moved c).2)] := rfl

theorem front_step : (s.step moved c).front = (s.call moved c).1.front := rfl

theorem events_step_last :
    (s.step moved c).events[s.events.length]? = some (c, (s.call moved c).2) := by
  rw [events_step, List.getElem?_append_right le_rfl, Nat.sub_self]
  rfl

/-- The event of a step, or one before it. -/
theorem event_step_cases {position : ℕ} {event : HandoffCall β × HandoffReply β}
    (h : (s.step moved c).events[position]? = some event) :
    s.events[position]? = some event ∧ position < s.events.length ∨
      position = s.events.length ∧ event = (c, (s.call moved c).2) := by
  rw [events_step] at h
  rcases Nat.lt_or_ge position s.events.length with hlt | hge
  · rw [List.getElem?_append_left hlt] at h
    exact .inl ⟨h, hlt⟩
  · obtain ⟨hbound, -⟩ := List.getElem?_eq_some_iff.mp h
    rw [List.length_append, List.length_singleton] at hbound
    obtain rfl : position = s.events.length := by omega
    rw [List.getElem?_append_right le_rfl, Nat.sub_self] at h
    exact .inr ⟨rfl, (Option.some.inj h).symm⟩

/-- What holds along a safe run. -/
structure Sound (moved : Bool) (initial : Option (NodeCopy β)) (s : HandoffKey β) : Prop where
  oneCopy : s.OneCopy moved
  born_le : ∀ copy, s.front = some copy → copy.born ≤ s.events.length
  beginning : ∀ copy ∈ initial, copy.born = 0 ∧ s.Remembers 0 copy
  past : ∀ earlier event, s.events[earlier]? = some event →
    (∀ copy ∈ shown earlier event, copy.born ≤ s.events.length ∧ s.Remembers (earlier + 1) copy) ∧
      (event.1.deletes = true → event.2 = .done → s.Forgot (earlier + 1))
  faithful : Faithful s.events initial

variable {initial : Option (NodeCopy β)}

section

variable (hmoves : Moves moved s (s.call moved c).1 c (s.call moved c).2)
include hmoves

theorem Remembers.step {copy : NodeCopy β} (h : s.Remembers first copy)
    (hfirst : first ≤ s.events.length) (hborn : copy.born ≤ s.events.length) :
    (s.step moved c).Remembers first copy := by
  rcases hmoves.front with hfront | ⟨written, hputs, hfront⟩ | ⟨hdeletes, hfront⟩
  · refine ⟨fun other hother => h.not_older other (hfront ▸ hother), ?_⟩
    rcases h.present with ⟨position, hposition, hdelete⟩ | ⟨other, hother, hsame⟩
    · exact .inl ⟨position, hposition, hdelete.append _⟩
    · refine .inr ⟨other, hfront.trans hother, ?_⟩
      rcases hsame with hsame | ⟨position, hposition, hput⟩
      · exact .inl hsame
      · exact .inr ⟨position, hposition, hput.append _⟩
  · refine ⟨?_, .inr ⟨_, hfront, .inr ⟨s.events.length, hfirst, _, events_step_last, hputs⟩⟩⟩
    intro other hother
    cases hfront.symm.trans hother
    exact Nat.le_succ_of_le hborn
  · refine ⟨?_, .inl ⟨s.events.length, hfirst, _, events_step_last, hdeletes⟩⟩
    intro other hother
    cases hfront.symm.trans hother

theorem Forgot.step (h : s.Forgot first) (hfirst : first ≤ s.events.length) :
    (s.step moved c).Forgot first := by
  intro other hother
  rcases hmoves.front with hfront | ⟨written, hputs, hfront⟩ | ⟨-, hfront⟩
  · obtain ⟨position, hposition, hput⟩ := h other (hfront ▸ hother)
    exact ⟨position, hposition, hput.append _⟩
  · cases hfront.symm.trans hother
    exact ⟨s.events.length, hfirst, _, events_step_last, hputs⟩
  · cases hfront.symm.trans hother

/-- What the event of a step shows is the copy that counts after it. -/
theorem front_of_shown (h : s.OneCopy moved) {copy : NodeCopy β}
    (hshown : copy ∈ shown s.events.length (c, (s.call moved c).2)) :
    (s.step moved c).front = some copy := by
  rw [front_step]
  cases c with
  | put written current previous =>
    cases hreply : (s.call moved (.put written current previous)).2 with
    | done =>
      rw [hreply] at hshown
      cases hshown
      exact hmoves.put_done written rfl hreply
    | failed | found copy =>
      rw [hreply] at hshown
      cases hshown
  | delete | handoff => cases hshown
  | get nowMs current previous =>
    cases hreply : s.getOnShard moved nowMs current previous with
    | done | failed =>
      rw [call, hreply] at hshown
      cases hshown
    | found =>
      rw [call, hreply] at hshown
      have hlive := (found_of_getOnShard h hreply).symm.trans hshown
      exact (filter_eq_some_iff.mp hlive).1

theorem Sound.born_le_step (h : s.Sound moved initial) (copy : NodeCopy β)
    (hcopy : (s.step moved c).front = some copy) : copy.born ≤ (s.step moved c).events.length := by
  rw [events_step, List.length_append, List.length_singleton]
  rw [front_step] at hcopy
  rcases hmoves.front with hfront | ⟨written, -, hfront⟩ | ⟨-, hfront⟩
  · exact Nat.le_succ_of_le (h.born_le copy (hfront ▸ hcopy))
  · cases hfront.symm.trans hcopy
    exact le_rfl
  · cases hfront.symm.trans hcopy

theorem Sound.past_step (h : s.Sound moved initial) (earlier : ℕ)
    (event : HandoffCall β × HandoffReply β)
    (hevent : (s.step moved c).events[earlier]? = some event) :
    (∀ copy ∈ shown earlier event, copy.born ≤ (s.step moved c).events.length ∧
      (s.step moved c).Remembers (earlier + 1) copy) ∧
        (event.1.deletes = true → event.2 = .done → (s.step moved c).Forgot (earlier + 1)) := by
  have hlength : (s.step moved c).events.length = s.events.length + 1 := by
    rw [events_step, List.length_append, List.length_singleton]
  rcases event_step_cases hevent with ⟨hold, hlt⟩ | ⟨rfl, rfl⟩
  · obtain ⟨hshown, hdeleted⟩ := h.past earlier event hold
    refine ⟨fun copy hcopy => ?_, fun hdeletes hdone => (hdeleted hdeletes hdone).step hmoves hlt⟩
    obtain ⟨hborn, hremembers⟩ := hshown copy hcopy
    exact ⟨by omega, hremembers.step hmoves hlt hborn⟩
  · refine ⟨fun copy hcopy => ?_, fun hdeletes hdone => ?_⟩
    · have hfront := front_of_shown hmoves h.oneCopy hcopy
      refine ⟨h.born_le_step hmoves copy hfront, ?_, .inr ⟨copy, hfront, .inl rfl⟩⟩
      intro other hother
      cases hfront.symm.trans hother
      exact le_rfl
    · intro other hother
      rw [front_step, hmoves.delete_done hdeletes hdone] at hother
      cases hother

end

section

variable (h : s.Sound moved initial)
include h

theorem Sound.faithful_step : Faithful (s.step moved c).events initial := by
  intro later nowMs current previous found hget
  rcases event_step_cases hget with ⟨hold, hlt⟩ | ⟨rfl, hnew⟩
  · obtain ⟨hbeginning, hpast⟩ := h.faithful later nowMs current previous found hold
    refine ⟨fun copy hcopy => (hbeginning copy hcopy).append _, ?_⟩
    intro earlier event hearlier hevent
    rcases event_step_cases hevent with ⟨hevent, -⟩ | ⟨rfl, -⟩
    · obtain ⟨hshown, hdeleted⟩ := hpast earlier event hearlier hevent
      refine ⟨fun copy hcopy => (hshown copy hcopy).append _, ?_⟩
      intro hdeletes hdone other hother
      obtain ⟨position, hfirst, hlast, hput⟩ := hdeleted hdeletes hdone other hother
      exact ⟨position, hfirst, hlast, hput.append _⟩
    · omega
  · -- the last event is a get, and it answers from the copy that counts
    obtain ⟨rfl, hreply⟩ := Prod.mk.inj hnew
    cases found_of_getOnShard h.oneCopy hreply.symm
    refine ⟨fun copy hcopy => (h.beginning copy hcopy).2.rightAbout _ nowMs, ?_⟩
    intro earlier event hearlier hevent
    rcases event_step_cases hevent with ⟨hevent, -⟩ | ⟨rfl, -⟩
    · obtain ⟨hshown, hdeleted⟩ := h.past earlier event hevent
      refine ⟨fun copy hcopy => (hshown copy hcopy).2.rightAbout _ nowMs, ?_⟩
      intro hdeletes hdone other hother
      obtain ⟨position, hfirst, hput⟩ := hdeleted hdeletes hdone other
        (filter_eq_some_iff.mp hother).1
      exact ⟨position, hfirst, lt_of_event hput, hput.append _⟩
    · omega

theorem Sound.step (hsafe : Safe moved s c) : (s.step moved c).Sound moved initial := by
  have hmoves := call_moves h.oneCopy hsafe
  refine ⟨⟨hmoves.oneCopy.same, hmoves.oneCopy.unmoved⟩, h.born_le_step hmoves, ?_,
    h.past_step hmoves, h.faithful_step⟩
  intro copy hcopy
  obtain ⟨hborn, hremembers⟩ := h.beginning copy hcopy
  exact ⟨hborn, hremembers.step hmoves (Nat.zero_le _) (hborn ▸ Nat.zero_le _)⟩

end

/-- The copy that is there from the beginning. -/
def firstCopy (contents : Option (OverflowValue β)) : Option (NodeCopy β) :=
  contents.map fun written => ⟨written, 0⟩

/-- A key at the beginning. The change of membership leaves its value where it was: with the
previous owner if the key has moved, and otherwise with the current one. -/
def start (moved : Bool) (contents : Option (OverflowValue β)) : HandoffKey β :=
  if moved then { previous := firstCopy contents } else { current := firstCopy contents }

omit [DecidableEq β] in
theorem sound_start (moved : Bool) (contents : Option (OverflowValue β)) :
    (start moved contents).Sound moved (firstCopy contents) := by
  have hborn : ∀ copy ∈ firstCopy contents, copy.born = 0 := by
    intro copy hcopy
    obtain ⟨written, -, rfl⟩ := map_eq_some_iff.mp hcopy
    rfl
  have hfront : (start moved contents).front = firstCopy contents := by
    cases moved
    · exact or_none
    · exact none_or
  have hevents : (start moved contents).events = [] := by cases moved <;> rfl
  refine ⟨⟨?_, ?_⟩, ?_, ?_, ?_, ?_⟩
  · cases moved
    · exact fun _ _ => .inl rfl
    · exact fun _ hcurrent => nomatch hcurrent
  · rintro rfl
    rfl
  · intro copy hcopy
    rw [hfront] at hcopy
    rw [hborn copy hcopy]
    exact Nat.zero_le _
  · intro copy hcopy
    refine ⟨hborn copy hcopy, ?_, .inr ⟨copy, hfront.trans hcopy, .inl rfl⟩⟩
    intro other hother
    rw [hborn copy hcopy]
    exact Nat.zero_le _
  · intro earlier event hevent
    rw [hevents] at hevent
    cases hevent
  · intro later nowMs current previous found hget
    rw [hevents] at hget
    cases hget

/-- Every continuation without another put is faithful. -/
def StaysFaithful (moved : Bool) (initial : Option (NodeCopy β)) (s : HandoffKey β) : Prop :=
  ∀ rest : List (HandoffCall β), (∀ c ∈ rest, c.puts = none) →
    Faithful (rest.foldl (step moved) s).events initial

section

variable (h : s.Sound moved initial)
include h

theorem Sound.staysFaithful : StaysFaithful moved initial s := by
  intro rest hrest
  have hsafe : ∀ (s : HandoffKey β) (c : HandoffCall β), s.Sound moved initial → c.puts = none →
      (s.step moved c).Sound moved initial := by
    intro s c hs hputs
    refine hs.step ?_
    cases c with
    | put => cases hputs
    | delete | get | handoff => trivial
  exact (SafeRun.invariant hsafe rest s h ((safeRun_const rest s).mpr hrest)).faithful

/-- A put that left the previous copy behind shows its own value, and then the old one once a
delete has removed the new one only. -/
theorem not_staysFaithful_of_unsafe (hrisky : ¬Safe moved s c) :
    ¬StaysFaithful moved initial (s.step moved c) := by
  obtain ⟨written, rfl⟩ : ∃ written, c = .put written true false := by
    cases c with
    | put written current previous =>
      cases current <;> cases previous <;> first | exact ⟨written, rfl⟩ | exact absurd trivial hrisky
    | delete current previous | get nowMs current previous
    | handoff => exact absurd trivial hrisky
  obtain ⟨rfl, hprevious⟩ : moved = true ∧ s.previous ≠ none := by simpa [Safe] using hrisky
  obtain ⟨old, hold⟩ := ne_none_iff_exists'.mp hprevious
  have hborn : old.born ≤ s.events.length := by
    refine h.born_le old ?_
    cases hcurrent : s.current with
    | none => rw [front, hcurrent, none_or, hold]
    | some copy =>
      rcases h.oneCopy.same copy hcurrent with hnone | hsame
      · exact absurd hnone hprevious
      · rw [front, hcurrent, some_or, ← hsame, hold]
  intro hstays
  have hfaithful := hstays [.get 0 true true, .delete true false, .get 0 true true]
    (by simp [HandoffCall.puts])
  have hevents : ([.get 0 true true, .delete true false, .get 0 true true].foldl (step true)
      (s.step true (.put written true false))).events = s.events ++
        [(.put written true false, .failed),
          (.get 0 true true, .found (some ⟨written, s.events.length + 1⟩)),
          (.delete true false, .failed), (.get 0 true true, .found (some old))] := by
    simp [step, call, putUntilOnShard, deletePrevious, getOnShard, live_zero, deleteOnShard,
      getFromPrevious, hold]
  rw [hevents] at hfaithful
  obtain ⟨-, hpast⟩ := hfaithful (s.events.length + 3) 0 true true (some old) (by simp)
  obtain ⟨hshown, -⟩ := hpast (s.events.length + 1)
    (.get 0 true true, .found (some ⟨written, s.events.length + 1⟩)) (by omega) (by simp)
  have holder := (hshown ⟨written, s.events.length + 1⟩ rfl).not_older old rfl
  dsimp only at holder
  omega

theorem safeRun_iff_of_sound (calls : List (HandoffCall β)) :
    SafeRun (step moved) (Safe moved) s calls ↔
      ∀ front, front <+: calls → StaysFaithful moved initial (front.foldl (step moved) s) :=
  safeRun_iff_forall_good (fun _ h => h.staysFaithful) (fun _ _ h hsafe => h.step hsafe)
    (fun _ _ h hrisky => not_staysFaithful_of_unsafe h hrisky) calls s h

end
end Step

/-- Gets are faithful along the runs in which every put that reaches the current owner also
reaches the previous one. Along such runs every successful get is right about all that was put,
returned and deleted before it; and a put that leaves an old copy behind can be followed by a get of
its value and a later get of the old one. -/
theorem staysFaithful_iff_safeRun [DecidableEq β] (cluster : Placement.KvOverflowCluster)
    (keyHash : ℕ) (contents : Option (OverflowValue β)) (calls : List (HandoffCall β)) :
    SafeRun (step (cluster.previousOwnerIndex keyHash).isSome)
        (Safe (cluster.previousOwnerIndex keyHash).isSome)
        (start (cluster.previousOwnerIndex keyHash).isSome contents) calls ↔
      ∀ front, front <+: calls → StaysFaithful (cluster.previousOwnerIndex keyHash).isSome
          (firstCopy contents) (front.foldl (step (cluster.previousOwnerIndex keyHash).isSome)
            (start (cluster.previousOwnerIndex keyHash).isSome contents)) :=
  safeRun_iff_of_sound (sound_start _ contents) calls

/-- The put fails after it has reached the current owner. Its value is returned, a failed delete
removes it, and the next get returns the value from before. -/
def revived : List (HandoffCall ℕ) :=
  [.put ⟨2, none, none⟩ true false, .get 10 true true, .delete true false, .get 20 true true]

theorem revived_not_faithful :
    (revived.foldl (step true) (start true (some ⟨1, none, none⟩))).events.map Prod.snd =
        [.failed, .found (some ⟨⟨2, none, none⟩, 1⟩), .failed, .found (some ⟨⟨1, none, none⟩, 0⟩)] ∧
      ¬Faithful (revived.foldl (step true) (start true (some ⟨1, none, none⟩))).events
        (firstCopy (some ⟨1, none, none⟩)) := by
  refine ⟨by decide, fun hfaithful => ?_⟩
  obtain ⟨-, hpast⟩ := hfaithful 3 20 true true (some ⟨⟨1, none, none⟩, 0⟩) rfl
  obtain ⟨hshown, -⟩ := hpast 1 _ (by decide) rfl
  exact absurd ((hshown ⟨⟨2, none, none⟩, 1⟩ rfl).not_older ⟨⟨1, none, none⟩, 0⟩ rfl) (by decide)

end HandoffKey
end ShardKv
