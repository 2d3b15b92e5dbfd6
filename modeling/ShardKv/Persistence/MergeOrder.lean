import ShardKv.Persistence.WalMerger
import ShardKv.Persistence.TornTail
import Mathlib.Algebra.BigOperators.Fin

/-!
# The log keeps the order of every shard and loses nothing

At every moment the records a shard has appended are, in order, those in the
segments, those of the block being merged, those in the channel, those being
sent and those still pending. So what is written of a shard is an initial part
of what it appended. Once a stop has been requested with all appenders flushed,
the thread empties the channels and ends, and everything is written.
-/
namespace ShardKv

open List Function WalAppender
variable {config : WalConfig} (env : WalPrimitives)

/-- The records of an appender, oldest first. -/
def WalAppender.held (appender : WalAppender) : List MutationRecord :=
  appender.sending.getD [] ++ appender.pending

/-- Nothing can become pending while a block is being sent. -/
def WalAppender.Ready (appender : WalAppender) : Prop :=
  appender.sending ≠ none → appender.pending = []

namespace WalAppender

variable {appender : WalAppender}

theorem held_flush (h : appender.sending = none) : appender.flush.held = appender.held := by
  rw [flush]
  split_ifs with hempty
  · rfl
  · simp [held, h]

theorem ready_flush (h : appender.Ready) : appender.flush.Ready := by
  rw [flush]
  split_ifs
  · exact h
  · exact fun _ => rfl

theorem held_append (h : appender.sending = none) (record : MutationRecord) :
    (appender.append config record).held = appender.held ++ [record] := by
  simp only [append]
  split_ifs
  · rw [held_flush]
    · simp [held, h]
    · exact h
  · simp [held, h]

theorem ready_append (h : appender.sending = none) (record : MutationRecord) :
    (appender.append config record).Ready := by
  have hready : ∀ pending pendingBytes,
      WalAppender.Ready { appender with pending := pending, pendingBytes := pendingBytes } :=
    fun _ _ hsending => absurd h hsending
  simp only [append]
  split_ifs
  · exact ready_flush (hready _ _)
  · exact hready _ _

end WalAppender

theorem SegmentWriter.written_appendEncoded (writer : SegmentWriter config)
    (merged : MergedRecord config) :
    (writer.appendEncoded env merged).written = writer.written ++ [merged] := by
  simp only [appendEncoded]
  split_ifs <;> simp [written, segments, rotate]

namespace WalState

variable {state state' : WalState config} {shard : config.Shard}

/-- The records of the block being merged, if it came from this shard. -/
def mergingOf (state : WalState config) (shard : config.Shard) : List MutationRecord :=
  match state.merging with
  | some (origin, records) => if origin = shard then records else []
  | none => []

/-- The records of a shard that its channel has taken, oldest first. -/
def accepted (state : WalState config) (shard : config.Shard) : List MutationRecord :=
  state.writtenOf shard ++ (state.mergingOf shard ++ (state.channels shard).flatten)

/-- What every reachable state satisfies. -/
structure Flow (state : WalState config) : Prop where
  complete : ∀ shard, state.accepted shard ++ (state.appenders shard).held = state.appended shard
  ready : ∀ shard, (state.appenders shard).Ready

theorem flow_start : (start : WalState config).Flow where
  complete _ := rfl
  ready _ h := absurd rfl h

theorem accepted_congr (hwriter : state'.writer = state.writer)
    (hmerging : state'.merging = state.merging) (hchannels : state'.channels = state.channels) :
    state'.accepted = state.accepted := by
  funext shard
  rw [accepted, accepted, writtenOf, writtenOf, mergingOf, mergingOf, hwriter, hmerging, hchannels]

/-- Receiving moves the first block of a channel into the hands of the thread. -/
theorem accepted_tryRecv (hmerging : state.merging = none) (shard : config.Shard) :
    (state.tryRecv shard).accepted = state.accepted := by
  rw [tryRecv]
  split
  · rfl
  · rename_i block blocks hchannel
    funext other
    simp only [accepted, writtenOf, mergingOf, hmerging]
    by_cases hother : shard = other
    · subst hother
      simp [hchannel]
    · rw [if_neg hother, update_of_ne (Ne.symm hother)]

theorem accepted_appendRecord {record : MutationRecord} {rest : List MutationRecord}
    (hmerging : state.merging = some (shard, record :: rest)) :
    (state.appendRecord env shard record rest).accepted = state.accepted := by
  funext other
  simp only [accepted, writtenOf, appendRecord, SegmentWriter.written_appendEncoded, mergingOf,
    hmerging, filter_append, map_append]
  by_cases hother : shard = other
  · simp [hother]
  · simp [hother]

/-- The thread moves records along; it changes nothing about the appenders. -/
structure MergerKeeps (state state' : WalState config) : Prop where
  accepted : state'.accepted = state.accepted
  appenders : state'.appenders = state.appenders
  appended : state'.appended = state.appended
  stopRequested : state'.stopRequested = state.stopRequested

variable (state) in
theorem MergerKeeps.phase (phase : WriterPhase) : MergerKeeps state { state with phase } :=
  ⟨accepted_congr rfl rfl rfl, rfl, rfl, rfl⟩

theorem MergerKeeps.tryRecv (hmerging : state.merging = none) (shard : config.Shard) :
    MergerKeeps state (state.tryRecv shard) := by
  refine ⟨accepted_tryRecv hmerging shard, ?_, ?_, ?_⟩ <;>
  · rw [WalState.tryRecv]
    split <;> rfl

/-- What one step of the thread can be. -/
inductive MergerMoves (state : WalState config) : WalState config → Prop
  | ended (hphase : state.phase = .finished ∨ state.phase = .failed) : MergerMoves state state
  | append (shard : config.Shard) (record : MutationRecord) (rest : List MutationRecord)
      (hphase : state.phase ≠ .finished ∧ state.phase ≠ .failed)
      (hmerging : state.merging = some (shard, record :: rest)) :
      MergerMoves state (state.appendRecord env shard record rest)
  | merged (shard : config.Shard) (hphase : state.phase ≠ .finished ∧ state.phase ≠ .failed)
      (hmerging : state.merging = some (shard, [])) :
      MergerMoves state { state with merging := none }
  | leaveLoop (hphase : state.phase = .checking) (hmerging : state.merging = none)
      (hstop : state.stopRequested = true) : MergerMoves state { state with phase := .draining 0 }
  | startRound (hphase : state.phase = .checking) (hmerging : state.merging = none)
      (hstop : state.stopRequested = false) :
      MergerMoves state { state with phase := .polling config.shardCount }
  | endRound (hphase : state.phase = .polling 0) (hmerging : state.merging = none) :
      MergerMoves state { state with phase := .checking }
  | poll (left : ℕ) (hphase : state.phase = .polling (left + 1)) (hmerging : state.merging = none) :
      MergerMoves state (state.pollNextReceiver left)
  | drainNext (shard : config.Shard) (hphase : state.phase = .draining shard.val)
      (hmerging : state.merging = none) (hchannel : state.channels shard = []) :
      MergerMoves state { state with phase := .draining (shard.val + 1) }
  | drainBlock (shard : config.Shard) (hphase : state.phase = .draining shard.val)
      (hmerging : state.merging = none) (hchannel : state.channels shard ≠ []) :
      MergerMoves state (state.tryRecv shard)
  | finish (next : ℕ) (hphase : state.phase = .draining next) (hmerging : state.merging = none)
      (hnext : config.shardCount ≤ next) : MergerMoves state { state with phase := .finished }

variable (state) in
theorem mergerStep_moves : MergerMoves env state (state.mergerStep env) := by
  unfold mergerStep
  split
  · rename_i hphase
    exact .ended (.inl hphase)
  · rename_i hphase
    exact .ended (.inr hphase)
  · rename_i hfinished hfailed
    have hphase : state.phase ≠ .finished ∧ state.phase ≠ .failed := ⟨hfinished, hfailed⟩
    split
    · rename_i shard record rest hmerging
      exact .append shard record rest hphase hmerging
    · rename_i shard hmerging
      exact .merged shard hphase hmerging
    · rename_i hmerging
      split
      · rename_i hchecking
        split_ifs with hstop
        · exact .leaveLoop hchecking hmerging hstop
        · exact .startRound hchecking hmerging (by simpa using hstop)
      · rename_i hpolling
        exact .endRound hpolling hmerging
      · rename_i left hpolling
        exact .poll left hpolling hmerging
      · rename_i next hdraining
        split_ifs with hnext
        · rw [drainReceiver]
          split
          · rename_i hchannel
            exact .drainNext ⟨next, hnext⟩ hdraining hmerging hchannel
          · rename_i block blocks hchannel
            exact .drainBlock ⟨next, hnext⟩ hdraining hmerging (by simp [hchannel])
        · exact .finish next hdraining hmerging (by omega)
      · rename_i hchecking hpolling hround hdraining
        exfalso
        cases hcase : state.phase with
        | checking => exact hchecking hcase
        | polling left =>
          cases left with
          | zero => exact hpolling hcase
          | succ => exact hround _ hcase
        | draining => exact hdraining _ hcase
        | finished => exact hfinished hcase
        | failed => exact hfailed hcase

variable {env} in
theorem MergerMoves.keeps (h : MergerMoves env state state') : MergerKeeps state state' := by
  cases h with
  | ended => exact ⟨rfl, rfl, rfl, rfl⟩
  | append shard record rest _ hmerging =>
    exact ⟨accepted_appendRecord env hmerging, rfl, rfl, rfl⟩
  | merged shard _ hmerging =>
    refine ⟨?_, rfl, rfl, rfl⟩
    funext other
    simp [accepted, writtenOf, mergingOf, hmerging]
  | leaveLoop | startRound | endRound | drainNext | finish => exact MergerKeeps.phase state _
  | poll left _ hmerging =>
    -- a poll is a receive, with the phase and the index set afterwards
    have hrecv := MergerKeeps.tryRecv hmerging state.nextReceiver
    refine ⟨?_, hrecv.appenders, hrecv.appended, hrecv.stopRequested⟩
    rw [← hrecv.accepted]
    exact accepted_congr rfl rfl rfl
  | drainBlock shard _ hmerging => exact MergerKeeps.tryRecv hmerging shard

section

variable (h : state.Flow)
include h

theorem Flow.mergerStep : (state.mergerStep env).Flow := by
  have hkeeps := (mergerStep_moves env state).keeps
  constructor
  · intro shard
    rw [hkeeps.accepted, hkeeps.appenders, hkeeps.appended]
    exact h.complete shard
  · intro shard
    rw [hkeeps.appenders]
    exact h.ready shard

section

variable (shard)

/-- A step of one appender that adds `added` to what the channel has taken and `fresh` to what
has been appended. -/
theorem Flow.of_appender {appender : WalAppender} (added fresh : List MutationRecord)
    (happenders : state'.appenders = Function.update state.appenders shard appender)
    (haccepted : ∀ other, state'.accepted other =
      if other = shard then state.accepted other ++ added else state.accepted other)
    (happended : ∀ other, state'.appended other =
      if other = shard then state.appended other ++ fresh else state.appended other)
    (hheld : added ++ appender.held = (state.appenders shard).held ++ fresh)
    (hready : appender.Ready) : state'.Flow := by
  constructor
  · intro other
    rw [happenders, haccepted, happended]
    by_cases hother : other = shard
    · subst hother
      rw [if_pos rfl, if_pos rfl, update_self, append_assoc, hheld, ← append_assoc, h.complete]
    · rw [if_neg hother, if_neg hother, update_of_ne hother, h.complete]
  · intro other
    rw [happenders]
    by_cases hother : other = shard
    · subst hother
      rwa [update_self]
    · rw [update_of_ne hother]
      exact h.ready other

theorem Flow.append (record : MutationRecord) : (state.append shard record).Flow := by
  unfold WalState.append
  split
  · exact h
  · rename_i hsending
    refine h.of_appender shard [] [record] rfl ?_ ?_ ?_ (ready_append hsending record)
    · intro other
      simp only [append_nil, ite_self]
      exact congrFun (accepted_congr rfl rfl rfl) other
    · intro other
      by_cases hother : other = shard
      · subst hother
        simp
      · simp [hother]
    · rw [nil_append, held_append hsending]

theorem Flow.flush : (state.flush shard).Flow := by
  unfold WalState.flush
  split
  · exact h
  · rename_i hsending
    refine h.of_appender shard [] [] rfl ?_ ?_ ?_ (ready_flush (h.ready shard))
    · intro other
      simp only [append_nil, ite_self]
      exact congrFun (accepted_congr rfl rfl rfl) other
    · intro other
      simp [setAppender]
    · rw [nil_append, append_nil, held_flush hsending]

theorem Flow.send : (state.send shard).Flow := by
  unfold WalState.send
  split
  · exact h
  · rename_i block hsending
    have hpending := h.ready shard (by simp [hsending])
    have hheld : (state.appenders shard).held = block := by
      simp [held, hsending, hpending]
    split_ifs
    · -- the channel takes the block
      refine h.of_appender shard block [] rfl ?_ ?_ ?_ (fun _ => hpending)
      · intro other
        by_cases hother : other = shard
        · subst hother
          simp [accepted, writtenOf, mergingOf, setAppender]
        · simp [accepted, writtenOf, mergingOf, setAppender, hother]
      · intro other
        simp [setAppender]
      · rw [hheld, held, sent, hpending]
        simp
    · exact h
    · refine h.of_appender shard [] [] rfl ?_ ?_ ?_
        (fun hnone => absurd rfl hnone)
      · intro other
        simp only [append_nil, ite_self]
        exact congrFun (accepted_congr rfl rfl rfl) other
      · intro other
        simp [setAppender]
      · rw [hheld, held, sendFailed]
        simp

end

theorem Flow.step (event : WalEvent config) : (state.step env event).Flow := by
  cases event with
  | append => exact h.append ..
  | flush => exact h.flush _
  | send => exact h.send _
  | requestStop => exact ⟨h.complete, h.ready⟩
  | merge => exact h.mergerStep env
  | ioError =>
    simp only [WalState.step, ioError]
    split
    · exact h
    · exact ⟨h.complete, h.ready⟩

end

theorem flow_run (events : List (WalEvent config)) : (run env events).Flow := by
  induction events using List.reverseRecOn with
  | nil => exact flow_start
  | append_singleton events event ih =>
    rw [run, foldl_append]
    exact ih.step env event

/-- What is written of a shard is an initial part of what it appended. -/
theorem Flow.writtenOf_isPrefix_appended (h : state.Flow) (shard : config.Shard) :
    state.writtenOf shard <+: state.appended shard := by
  rw [← h.complete shard, accepted, append_assoc]
  exact prefix_append _ _

/-- The thread leaves its loop only after a stop has been requested. -/
def InLoop (state : WalState config) : Prop := state.stopRequested = false →
    state.phase ≠ .finished ∧ ∀ next, state.phase ≠ .draining next

theorem InLoop.of_appenders (h : state.InLoop) (hstop : state'.stopRequested = state.stopRequested)
    (hphase : state'.phase = state.phase) : state'.InLoop := by
  rw [InLoop, hstop, hphase]
  exact h

/-- Nothing is left with the appenders, and the drained channels are empty. -/
structure Settling (state : WalState config) : Prop where
  stopRequested : state.stopRequested = true
  pending : ∀ shard, (state.appenders shard).pending = []
  sending : ∀ shard, (state.appenders shard).sending = none
  drained : ∀ next, state.phase = .draining next → ∀ shard : config.Shard, shard.val < next →
    state.channels shard = []
  ended : state.phase = .finished → state.merging = none ∧ ∀ shard, state.channels shard = []

variable (state shard) in
theorem phase_tryRecv : (state.tryRecv shard).phase = state.phase := by
  rw [tryRecv]
  split <;> rfl

theorem channels_tryRecv_nil {other : config.Shard} (h : state.channels other = []) :
    (state.tryRecv shard).channels other = [] := by
  rw [tryRecv]
  split
  · exact h
  · rename_i block blocks hchannel
    have hne : other ≠ shard := by
      rintro rfl
      rw [h] at hchannel
      cases hchannel
    simp only [update_of_ne hne, h]

theorem tryRecv_of_nil (h : state.channels shard = []) : state.tryRecv shard = state := by
  rw [tryRecv, h]

variable {env} in
theorem Settling.of_moves (h : state.Settling) (hmoves : MergerMoves env state state') :
    state'.Settling := by
  have hkeeps := hmoves.keeps
  have hstop : state'.stopRequested = true := by
    rw [hkeeps.stopRequested, h.stopRequested]
  have hpending : ∀ shard, (state'.appenders shard).pending = [] := by
    rw [hkeeps.appenders]
    exact h.pending
  have hsending : ∀ shard, (state'.appenders shard).sending = none := by
    rw [hkeeps.appenders]
    exact h.sending
  refine ⟨hstop, hpending, hsending, ?_, ?_⟩
  · intro next hnext shard hshard
    cases hmoves with
    | ended | append | merged => exact h.drained next hnext shard hshard
    | leaveLoop =>
      cases hnext
      exact absurd hshard (Nat.not_lt_zero _)
    | startRound | endRound | poll | finish => cases hnext
    | drainNext first hphase _ hchannel =>
      cases hnext
      rcases Nat.lt_succ_iff_lt_or_eq.mp hshard with hlt | heq
      · exact h.drained _ hphase shard hlt
      · rw [Fin.ext heq]
        exact hchannel
    | drainBlock =>
      rw [phase_tryRecv] at hnext
      exact channels_tryRecv_nil (h.drained next hnext shard hshard)
  · intro hend
    cases hmoves with
    | ended => exact h.ended hend
    | append _ _ _ hphase => exact absurd hend hphase.1
    | merged _ hphase => exact absurd hend hphase.1
    | leaveLoop | startRound | endRound | poll | drainNext => cases hend
    | drainBlock _ hphase =>
      rw [phase_tryRecv, hphase] at hend
      cases hend
    | finish next hphase hmerging =>
      exact ⟨hmerging, fun shard => h.drained next hphase shard (by omega)⟩

/-- Without new records the appenders have nothing more to do. -/
theorem Settling.step (h : state.Settling) {event : WalEvent config}
    (hevent : ∀ shard record, event ≠ .append shard record) : (state.step env event).Settling := by
  cases event with
  | append shard record => exact absurd rfl (hevent shard record)
  | flush shard =>
    have hflush : state.flush shard = state := by
      have happender : (state.appenders shard).flush = state.appenders shard := by
        rw [WalAppender.flush, if_pos (h.pending shard)]
      rw [WalState.flush, h.sending shard, happender, setAppender, update_eq_self]
    simpa only [WalState.step, hflush] using h
  | send shard =>
    have hsend : state.send shard = state := by rw [WalState.send, h.sending shard]
    simpa only [WalState.step, hsend] using h
  | requestStop => exact ⟨rfl, h.pending, h.sending, h.drained, h.ended⟩
  | merge => exact h.of_moves (mergerStep_moves env state)
  | ioError =>
    simp only [WalState.step, ioError]
    split
    · exact h
    · refine ⟨h.stopRequested, h.pending, h.sending, ?_, ?_⟩
      · intro next hnext
        cases hnext
      · intro hend
        cases hend

variable {env} in
theorem InLoop.of_moves (h : state.InLoop) (hmoves : MergerMoves env state state') :
    state'.InLoop := by
  intro hstop
  have hbefore : state.stopRequested = false := by
    rwa [hmoves.keeps.stopRequested] at hstop
  obtain ⟨hfinished, hdraining⟩ := h hbefore
  cases hmoves with
  | ended | append | merged => exact ⟨hfinished, hdraining⟩
  | leaveLoop _ _ hstopped =>
    rw [hstopped] at hbefore
    cases hbefore
  | startRound | endRound => exact ⟨by simp, by simp⟩
  | poll => exact ⟨by simp [pollNextReceiver], by simp [pollNextReceiver]⟩
  | drainNext shard hphase | drainBlock shard hphase | finish next hphase =>
    exact absurd hphase (hdraining _)

theorem InLoop.step (h : state.InLoop) (event : WalEvent config) :
    (state.step env event).InLoop := by
  cases event with
  | append =>
    refine h.of_appenders ?_ ?_ <;>
    · simp only [WalState.step, WalState.append]
      split <;> rfl
  | flush =>
    refine h.of_appenders ?_ ?_ <;>
    · simp only [WalState.step, WalState.flush]
      split <;> rfl
  | send =>
    refine h.of_appenders ?_ ?_ <;>
    · simp only [WalState.step, WalState.send]
      split
      · rfl
      · split_ifs <;> rfl
  | requestStop => exact fun hstop => absurd hstop (by simp [WalState.step])
  | merge => exact h.of_moves (mergerStep_moves env state)
  | ioError =>
    intro hstop
    simp only [WalState.step, ioError] at hstop ⊢
    split at hstop
    · rename_i hphase
      exact absurd hphase (h hstop).1
    · exact ⟨by simp, by simp⟩

theorem inLoop_run (events : List (WalEvent config)) : (run env events).InLoop := by
  induction events using List.reverseRecOn with
  | nil => exact fun _ => ⟨by simp [run, start], by simp [run, start]⟩
  | append_singleton events event ih =>
    rw [run, foldl_append]
    exact ih.step env event

/-- All records of the shards are with the channels or further. -/
def Flushed (state : WalState config) : Prop :=
  ∀ shard, (state.appenders shard).pending = [] ∧ (state.appenders shard).sending = none

theorem settling_requestStop (hloop : state.InLoop) (hstop : state.stopRequested = false)
    (hflushed : state.Flushed) : (state.step env .requestStop).Settling := by
  obtain ⟨hfinished, hdraining⟩ := hloop hstop
  exact ⟨rfl, fun shard => (hflushed shard).1, fun shard => (hflushed shard).2,
    fun next hnext => absurd hnext (hdraining next), fun hend => absurd hend hfinished⟩

theorem Settling.foldl {events : List (WalEvent config)}
    (hevents : ∀ event ∈ events, ∀ shard record, event ≠ .append shard record) :
    ∀ {state : WalState config}, state.Settling →
      (events.foldl (WalState.step env) state).Settling := by
  induction events with
  | nil => exact fun h => h
  | cons event events ih =>
    intro state h
    obtain ⟨hevent, hrest⟩ := forall_mem_cons.mp hevents
    exact ih hrest (h.step env hevent)

/-- When the thread has ended, everything is in the segments. -/
theorem writtenOf_eq_appended (hflow : state.Flow) (hsettling : state.Settling)
    (hend : state.phase = .finished) (shard : config.Shard) :
    state.writtenOf shard = state.appended shard := by
  obtain ⟨hmerging, hchannels⟩ := hsettling.ended hend
  have hcomplete := hflow.complete shard
  simpa [accepted, mergingOf, hmerging, hchannels shard, held,
    hsettling.pending shard, hsettling.sending shard] using hcomplete

def channelWork (blocks : List (List MutationRecord)) : ℕ :=
  (blocks.map fun block => block.length + 2).sum

def mergingWork (state : WalState config) : ℕ :=
  match state.merging with
  | some (_, records) => records.length + 1
  | none => 0

def phaseWork (config : WalConfig) : WriterPhase → ℕ
  | .polling left => config.shardCount + 3 + left
  | .checking => config.shardCount + 2
  | .draining next => config.shardCount - next + 1
  | .finished => 0
  | .failed => 0

/-- A bound for the number of steps until the thread has ended, once it is stopping. -/
def work (state : WalState config) : ℕ :=
  ∑ shard, channelWork (state.channels shard) + state.mergingWork + phaseWork config state.phase

theorem sum_channelWork_tryRecv {block : List MutationRecord} {blocks : List (List MutationRecord)}
    (hchannel : state.channels shard = block :: blocks) :
    ∑ other, channelWork ((state.tryRecv shard).channels other) + (block.length + 2) =
      ∑ other, channelWork (state.channels other) := by
  have hchannels : (state.tryRecv shard).channels =
      Function.update state.channels shard blocks := by
    rw [tryRecv, hchannel]
  have hwork : channelWork (state.channels shard) = block.length + 2 + channelWork blocks := by
    rw [hchannel, channelWork, map_cons, sum_cons, channelWork]
  rw [hchannels]
  simp only [apply_update fun _ => channelWork]
  rw [Finset.sum_update_of_mem (Finset.mem_univ shard),
    ← Finset.add_sum_erase Finset.univ (fun other => channelWork (state.channels other))
      (Finset.mem_univ shard), hwork, Finset.sdiff_singleton_eq_erase]
  omega

/-- While the thread is stopping, each of its steps brings it closer to its end. -/
theorem work_mergerStep_lt (hstop : state.stopRequested = true)
    (hphase : state.phase ≠ .finished ∧ state.phase ≠ .failed) :
    (state.mergerStep env).work < state.work := by
  have hrecv : ∀ shard, state.merging = none →
      ∑ other, channelWork ((state.tryRecv shard).channels other) +
        (state.tryRecv shard).mergingWork ≤
          ∑ other, channelWork (state.channels other) + state.mergingWork ∧
      (state.channels shard ≠ [] → ∑ other, channelWork ((state.tryRecv shard).channels other) +
          (state.tryRecv shard).mergingWork <
            ∑ other, channelWork (state.channels other) + state.mergingWork) := by
    intro shard hmerging
    cases hchannel : state.channels shard with
    | nil =>
      rw [tryRecv_of_nil hchannel]
      exact ⟨le_rfl, fun hne => absurd rfl hne⟩
    | cons block =>
      have hsum := sum_channelWork_tryRecv hchannel
      have hwork : (state.tryRecv shard).mergingWork = block.length + 1 := by
        rw [tryRecv, hchannel]
        rfl
      constructor
      · omega
      · intro _
        omega
  have hmoves := mergerStep_moves env state
  generalize state.mergerStep env = state' at hmoves ⊢
  cases hmoves with
  | ended hended => exact absurd hended (by simp [hphase])
  | append shard record rest _ hmerging =>
    simp only [work, appendRecord, mergingWork, hmerging, length_cons]
    omega
  | merged shard _ hmerging =>
    simp only [work, mergingWork, hmerging, length_nil]
    omega
  | leaveLoop hchecking =>
    simp only [work, mergingWork, hchecking, phaseWork]
    omega
  | startRound _ _ hrunning =>
    rw [hstop] at hrunning
    cases hrunning
  | endRound hpolling =>
    simp only [work, mergingWork, hpolling, phaseWork]
    omega
  | poll left hpolling hmerging =>
    have hle := (hrecv state.nextReceiver hmerging).1
    simp only [work, hpolling, phaseWork]
    have hsame : (state.pollNextReceiver left).mergingWork =
        (state.tryRecv state.nextReceiver).mergingWork := rfl
    rw [hsame]
    simp only [pollNextReceiver]
    omega
  | drainNext shard hdraining | finish next hdraining _ hnext =>
    simp only [work, mergingWork, hdraining, phaseWork]
    omega
  | drainBlock shard hdraining hmerging hchannel =>
    have hlt := (hrecv shard hmerging).2 hchannel
    simp only [work, phase_tryRecv]
    omega

theorem phase_mergerStep_ne_failed (h : state.phase ≠ .failed) :
    (state.mergerStep env).phase ≠ .failed := by
  have hmoves := mergerStep_moves env state
  generalize state.mergerStep env = state' at hmoves ⊢
  cases hmoves with
  | ended | append | merged => exact h
  | leaveLoop | startRound | endRound | drainNext | finish => simp
  | poll => simp [pollNextReceiver]
  | drainBlock => rwa [phase_tryRecv]

/-- A thread that has been told to stop and has not failed reaches its end. -/
theorem exists_merges_finished (hstop : state.stopRequested = true) (hphase : state.phase ≠ .failed) :
    ∃ count, ((List.replicate count WalEvent.merge).foldl (step env) state).phase = .finished := by
  induction hwork : state.work using Nat.strong_induction_on generalizing state with
  | _ work ih =>
    by_cases hend : state.phase = .finished
    · exact ⟨0, hend⟩
    · have hlt := work_mergerStep_lt env hstop ⟨hend, hphase⟩
      have hstop' : (state.mergerStep env).stopRequested = true := by
        rw [(mergerStep_moves env state).keeps.stopRequested, hstop]
      obtain ⟨count, hcount⟩ := ih _ (hwork ▸ hlt) hstop'
        (phase_mergerStep_ne_failed env hphase) rfl
      exact ⟨count + 1, hcount⟩

/-- In every run the segments hold, of every shard, an initial part of what it appended. If all
appenders were flushed when the stop was requested and nothing was appended afterwards, then
the thread, unless a file operation fails, comes to its end, and then the segments hold
everything. -/
theorem merge_keeps_order (events : List (WalEvent config)) (shard : config.Shard) :
    (run env events).writtenOf shard <+: (run env events).appended shard ∧
      ∀ before after, events = before ++ .requestStop :: after →
        (run env before).stopRequested = false → (run env before).Flushed →
        (∀ event ∈ after, ∀ origin record, event ≠ .append origin record) →
        ((run env events).phase = .finished →
          (run env events).writtenOf shard = (run env events).appended shard) ∧
        ((run env events).phase ≠ .failed →
          ∃ count, (run env (events ++ List.replicate count .merge)).phase = .finished) := by
  refine ⟨(flow_run env events).writtenOf_isPrefix_appended shard, ?_⟩
  rintro before after rfl hstop hflushed hafter
  have hsettling : (run env (before ++ .requestStop :: after)).Settling := by
    rw [run, foldl_append, foldl_cons]
    exact (settling_requestStop env (inLoop_run env before) hstop hflushed).foldl env hafter
  refine ⟨fun hend => writtenOf_eq_appended (flow_run env _) hsettling hend shard, ?_⟩
  intro hphase
  obtain ⟨count, hcount⟩ := exists_merges_finished env hsettling.stopRequested hphase
  refine ⟨count, ?_⟩
  rw [run, foldl_append]
  exact hcount

/-- Two shards, blocks of two records and segments that three small frames fill. -/
def twoShards : WalConfig where
  shardCount := 2
  walChannelCapacity := 16
  walBlockMaxRecords := 2
  walBlockMaxBytes := 4096
  segmentSizeBytes := 128
  compressWal := false
  shardCount_pos := by decide
  walChannelCapacity_pos := by decide
  walBlockMaxRecords_pos := by decide
  walBlockMaxBytes_pos := by decide

def firstShard : twoShards.Shard := ⟨0, by decide⟩

def secondShard : twoShards.Shard := ⟨1, by decide⟩

/-- A `SET` of the shard's only key. -/
def shardWrite (shard : twoShards.Shard) (sequence : ℕ) : MutationRecord where
  shardId := shard
  sequence
  timestampMs := sequence
  op := .set
  key := [UInt8.ofNat shard]
  value := [UInt8.ofNat sequence]
  expireAtMs := none
  governance := none

/-- The thread has written one record of a block when the other blocks are sent. -/
def interleavedWrites : List (WalEvent twoShards) :=
  [.append firstShard (shardWrite firstShard 1), .append secondShard (shardWrite secondShard 2),
    .append firstShard (shardWrite firstShard 3), .send firstShard, .merge, .merge, .merge,
    .append secondShard (shardWrite secondShard 4), .send secondShard,
    .append firstShard (shardWrite firstShard 5), .flush firstShard, .send firstShard]

/-- The run that stops then, with the segment rotated once. -/
def interleavedRun : WalState twoShards :=
  run trivialPrimitives (interleavedWrites ++ .requestStop :: replicate 20 .merge)

theorem merge_keeps_order_interleaved :
    (∀ shard, interleavedRun.writtenOf shard = interleavedRun.appended shard) ∧
      interleavedRun.writer.segments.map (map (·.record.sequence)) = [[1, 3, 2], [4, 5]] := by
  refine ⟨fun shard => ?_, by decide +kernel⟩
  refine ((merge_keeps_order trivialPrimitives _ shard).2 interleavedWrites (replicate 20 .merge)
    rfl (by decide +kernel) ?_ ?_).1 (by decide +kernel)
  · unfold Flushed
    decide +kernel
  · intro event hevent origin record heq
    rw [eq_of_mem_replicate hevent] at heq
    cases heq

end WalState
end ShardKv
