import ShardKv.Foundations.CellEdit

/-!
# Replaying a log over a snapshot of a cell that expires

Events act on a cell at their own time. A value that is no longer alive is
purged silently; every other change is logged with the time of the event. A
snapshot may already contain part of what the log holds. Replaying the log from
a cutoff over it still ends, as far as live values go, where the events end.
-/
namespace ShardKv

open List CellEdit

universe u v

/-- A value is alive up to some time and never again afterwards. -/
structure Lifetime (ν : Type u) where
  alive : ℕ → ν → Bool
  alive_of_later : ∀ {time later value}, time ≤ later → alive later value = true →
    alive time value = true

namespace Lifetime

variable {ν : Type u} (L : Lifetime ν) {time : ℕ}

/-- What is left of the cell at a time. -/
def purge (time : ℕ) (cell : Option ν) : Option ν := cell.filter (L.alive time)

variable {L}

theorem purge_eq_some {cell : Option ν} {value : ν} (h : L.purge time cell = some value) :
    cell = some value :=
  (Option.filter_eq_some_iff.mp h).1

theorem purge_purge {later : ℕ} (hle : time ≤ later) (cell : Option ν) :
    L.purge later (L.purge time cell) = L.purge later cell := by
  cases cell with
  | none => rfl
  | some value =>
    cases halive : L.alive time value with
    | true => simp only [purge, Option.filter, halive, if_true]
    | false =>
      have hdead : L.alive later value = false := by
        by_contra hlater
        rw [Bool.not_eq_false] at hlater
        rw [L.alive_of_later hle hlater] at halive
        cases halive
      simp only [purge, Option.filter, halive, hdead, Bool.false_eq_true, if_false]

/-- Cells that agree on live values keep agreeing as time passes. -/
theorem purge_congr {later : ℕ} (hle : time ≤ later) {left right : Option ν}
    (h : L.purge time left = L.purge time right) : L.purge later left = L.purge later right := by
  rw [← purge_purge hle left, h, purge_purge hle]

end Lifetime

/-- What an event does, given what is alive in the cell at its time. Only an
occupied cell is amended. -/
structure CellEvent (ν : Type u) (δ : Type v) where
  time : ℕ
  edit : Option ν → Option (CellEdit ν δ)
  edit_none_ne_amend : ∀ change, edit none ≠ some (.amend change)

namespace CellEvent

variable {ν : Type u} {δ : Type v} (A : Amendment ν δ) (L : Lifetime ν)
  (events : List (CellEvent ν δ)) (event : CellEvent ν δ) (cell : Option ν)

def step : Option ν :=
  ((event.edit (L.purge event.time cell)).getD .keep).apply A (L.purge event.time cell)

def logged : List (ℕ × CellEdit ν δ) :=
  ((event.edit (L.purge event.time cell)).map fun edit => (event.time, edit)).toList

/-- The final cell and the log of a sequence of events. -/
def run : List (CellEvent ν δ) → Option ν → Option ν × List (ℕ × CellEdit ν δ)
  | [], cell => (cell, [])
  | event :: events, cell =>
    let rest := run events (event.step A L cell)
    (rest.1, event.logged L cell ++ rest.2)

def edits (log : List (ℕ × CellEdit ν δ)) : List (CellEdit ν δ) := log.map Prod.snd

/-- The part of a log that is not older than the cutoff. -/
def since (cutoff : ℕ) (log : List (ℕ × CellEdit ν δ)) : List (ℕ × CellEdit ν δ) :=
  log.filter fun entry => decide (cutoff ≤ entry.1)

def replay (log : List (ℕ × CellEdit ν δ)) (cell : Option ν) : Option ν :=
  (edits log).foldl (fun cell edit => edit.apply A cell) cell

variable {A L}

theorem step_purge : event.step A L (L.purge event.time cell) = event.step A L cell := by
  rw [step, step, Lifetime.purge_purge (Nat.le_refl _)]

theorem logged_purge : event.logged L (L.purge event.time cell) = event.logged L cell := by
  rw [logged, logged, Lifetime.purge_purge (Nat.le_refl _)]

theorem run_append (front rest : List (CellEvent ν δ)) : ∀ cell, run A L (front ++ rest) cell =
      ((run A L rest (run A L front cell).1).1,
        (run A L front cell).2 ++ (run A L rest (run A L front cell).1).2) := by
  induction front with
  | nil => exact fun _ => rfl
  | cons event front ih =>
    intro cell
    rw [cons_append, run, ih]
    simp only [run, append_assoc]

theorem replay_append (front rest : List (ℕ × CellEdit ν δ)) (cell : Option ν) :
    replay A (front ++ rest) cell = replay A rest (replay A front cell) := by
  simp only [replay, edits, map_append, foldl_append]

theorem replay_eq_net (log : List (ℕ × CellEdit ν δ)) (cell : Option ν) :
    replay A log cell = (net A (edits log)).apply A cell :=
  (net_apply (edits log) cell).symm

theorem logged_time {event : CellEvent ν δ} {cell : Option ν} {entry : ℕ × CellEdit ν δ}
    (h : entry ∈ event.logged L cell) : entry.1 = event.time := by
  simp only [logged, Option.mem_toList, Option.map_eq_some_iff] at h
  obtain ⟨edit, _, rfl⟩ := h
  rfl

/-- Events that never edit leave an empty cell empty. -/
theorem run_silent (h : ∀ event ∈ events, ∀ live, event.edit live = none) :
    (run A L events none).1 = none := by
  induction events with
  | nil => rfl
  | cons event events ih =>
    have hstep : event.step A L none = none := by
      rw [step, h event mem_cons_self]
      rfl
    rw [run, hstep]
    exact ih fun other hother => h other (mem_cons_of_mem event hother)

/-- Every logged change carries the time of one of the events. -/
theorem run_log_time :
    ∀ cell, ∀ entry ∈ (run A L events cell).2, ∃ event ∈ events, entry.1 = event.time := by
  induction events with
  | nil =>
    intro cell entry hentry
    cases hentry
  | cons event events ih =>
    intro cell entry hentry
    rcases mem_append.mp hentry with hhere | hlater
    · exact ⟨event, mem_cons_self, logged_time hhere⟩
    · obtain ⟨other, hother, htime⟩ := ih _ entry hlater
      exact ⟨other, mem_cons_of_mem event hother, htime⟩

/-- One event and its log entry keep two cells in agreement on live values. -/
theorem step_live_eq {cell copy : Option ν} (h : L.purge event.time cell = L.purge event.time copy) :
    L.purge event.time (event.step A L cell) =
      L.purge event.time (replay A (event.logged L cell) copy) := by
  unfold step logged
  cases hedit : event.edit (L.purge event.time cell) with
  | none => exact (Lifetime.purge_purge (Nat.le_refl _) cell).trans h
  | some edit =>
    cases edit with
    | keep => exact (Lifetime.purge_purge (Nat.le_refl _) cell).trans h
    | put value => rfl
    | drop => rfl
    | amend change =>
      cases hlive : L.purge event.time cell with
      | none =>
        rw [hlive] at hedit
        exact absurd hedit (event.edit_none_ne_amend change)
      | some value =>
        rw [hlive] at h
        rw [Lifetime.purge_eq_some h.symm]
        rfl

/-- Events and their log, applied to two cells that agree on live values. -/
theorem run_live_eq (now : ℕ) : ∀ (time : ℕ) (cell copy : Option ν),
    (time :: (events.map CellEvent.time ++ [now])).Pairwise (· ≤ ·) →
    L.purge time cell = L.purge time copy →
    L.purge now (run A L events cell).1 = L.purge now (replay A (run A L events cell).2 copy) := by
  induction events with
  | nil =>
    intro time cell copy htimes h
    have hle : time ≤ now := (pairwise_cons.mp htimes).1 now (by simp)
    exact Lifetime.purge_congr hle h
  | cons event events ih =>
    intro time cell copy htimes h
    obtain ⟨hfirst, hrest⟩ := pairwise_cons.mp htimes
    have hle : time ≤ event.time := hfirst event.time (by simp)
    have hnext := step_live_eq (A := A) event (Lifetime.purge_congr hle h)
    rw [run, replay_append]
    exact ih event.time _ _ hrest hnext

/-- After a run, the cell is empty or the net edit of the log does not change it. -/
theorem run_fixed : ∀ (cell : Option ν) (before : CellEdit ν δ),
    (cell = none ∨ before.apply A cell = cell) →
    (run A L events cell).1 = none ∨
      ((edits (run A L events cell).2).foldl (andThen A) before).apply A
        (run A L events cell).1 = (run A L events cell).1 := by
  induction events with
  | nil => exact fun _ _ h => h
  | cons event events ih =>
    intro cell before h
    have hsplit : edits (run A L (event :: events) cell).2 =
        edits (event.logged L cell) ++ edits (run A L events (event.step A L cell)).2 := by
      simp only [run, edits, map_append]
    rw [hsplit, foldl_append]
    apply ih (event.step A L cell)
    unfold step logged
    cases hlive : L.purge event.time cell with
    | none =>
      cases event.edit none with
      | none => exact .inl rfl
      | some edit =>
        cases edit with
        | keep | amend change | drop => exact .inl rfl
        | put value => exact .inr (apply_andThen before (.put value) _)
    | some value =>
      have hcell := Lifetime.purge_eq_some hlive
      have hfixed : before.apply A (some value) = some value := by
        rcases h with hnone | hsame
        · rw [hcell] at hnone
          cases hnone
        · rw [hcell] at hsame
          exact hsame
      cases event.edit (some value) with
      | none => exact .inr hfixed
      | some edit => exact .inr (andThen_fixed hfixed)

/-- Events in the order of their times split at a cutoff. -/
theorem exists_split_at (cutoff : ℕ) (events : List (CellEvent ν δ))
    (h : (events.map CellEvent.time).Pairwise (· ≤ ·)) :
    ∃ early late, events = early ++ late ∧ (∀ event ∈ early, event.time < cutoff) ∧
      ∀ event ∈ late, cutoff ≤ event.time := by
  induction events with
  | nil => exact ⟨[], [], rfl, by simp, by simp⟩
  | cons event events ih =>
    rw [map_cons, pairwise_cons] at h
    by_cases hearly : event.time < cutoff
    · obtain ⟨early, late, rfl, hbefore, hafter⟩ := ih h.2
      exact ⟨event :: early, late, rfl, forall_mem_cons.mpr ⟨hearly, hbefore⟩, hafter⟩
    · refine ⟨[], event :: events, rfl, by simp, ?_⟩
      intro other hother
      rcases mem_cons.mp hother with rfl | hlater
      · exact Nat.le_of_not_lt hearly
      · have hle := h.1 other.time (mem_map_of_mem hlater)
        omega

theorem since_run_of_ge {cutoff : ℕ} {events : List (CellEvent ν δ)}
    (h : ∀ event ∈ events, cutoff ≤ event.time) (cell : Option ν) :
    since cutoff (run A L events cell).2 = (run A L events cell).2 := by
  apply filter_eq_self.mpr
  intro entry hentry
  obtain ⟨event, hevent, htime⟩ := run_log_time events cell entry hentry
  have hle := h event hevent
  simpa [htime] using hle

theorem since_run_of_lt {cutoff : ℕ} {events : List (CellEvent ν δ)}
    (h : ∀ event ∈ events, event.time < cutoff) (cell : Option ν) :
    since cutoff (run A L events cell).2 = [] := by
  apply filter_eq_nil_iff.mpr
  intro entry hentry
  obtain ⟨event, hevent, htime⟩ := run_log_time events cell entry hentry
  have hlt := h event hevent
  simpa [htime] using hlt

/-- Replaying a part of the log over a snapshot that already contains it gives
the snapshot again, as far as live values go. -/
theorem replay_overlap (takenAt : ℕ)
    (htimes : (events.map CellEvent.time ++ [takenAt]).Pairwise (· ≤ ·)) :
    L.purge takenAt (run A L events cell).1 = L.purge takenAt (replay A (run A L events cell).2
        (L.purge takenAt (run A L events cell).1)) := by
  have hstart := pairwise_cons.mpr ⟨fun _ _ => Nat.zero_le _, htimes⟩
  by_cases hover : (net A (edits (run A L events cell).2)).Overwrites
  · -- The log forgets where it starts, so it may as well start where the events did.
    have hrun := run_live_eq events takenAt 0 cell cell hstart (L := L) (A := A) rfl
    refine hrun.trans ?_
    rw [replay_eq_net, replay_eq_net, hover.apply_eq cell]
  · rw [replay_eq_net]
    cases hlive : L.purge takenAt (run A L events cell).1 with
    | none =>
      rw [apply_none_of_not_overwrites hover]
      rfl
    | some value =>
      have hcell := Lifetime.purge_eq_some hlive
      rcases run_fixed events cell .keep (.inr rfl) (L := L) (A := A) with hnone | hfixed
      · rw [hcell] at hnone
        cases hnone
      · rw [hcell] at hfixed hlive
        rw [net, hfixed]
        exact hlive.symm

/-- Replay of the log from a cutoff over a snapshot that was taken after some
events, among them all those older than the cutoff. -/
theorem replay_over_snapshot (front rest : List (CellEvent ν δ)) (start : Option ν)
    (takenAt cutoff now : ℕ)
    (htimes : (front.map CellEvent.time ++
      takenAt :: (rest.map CellEvent.time ++ [now])).Pairwise (· ≤ ·))
    (hcutoff : ∀ event ∈ rest, cutoff ≤ event.time) :
    L.purge now (replay A (since cutoff (run A L (front ++ rest) start).2)
        (L.purge takenAt (run A L front start).1)) =
      L.purge now (run A L (front ++ rest) start).1 := by
  obtain ⟨hfront, hrest, hcross⟩ := pairwise_append.mp htimes
  obtain ⟨early, late, rfl, hearly, hlate⟩ := exists_split_at cutoff front hfront
  have hoverlap := replay_overlap (A := A) (L := L) late (run A L early start).1 takenAt (by
    rw [map_append] at hfront
    refine pairwise_append.mpr ⟨(pairwise_append.mp hfront).2.1, by simp, ?_⟩
    intro time htime other hother
    rw [mem_singleton] at hother
    subst hother
    rw [map_append] at hcross
    exact hcross time (mem_append_right _ htime) _ mem_cons_self)
  have hsplit : since cutoff (run A L (early ++ late ++ rest) start).2 =
      (run A L late (run A L early start).1).2 ++
        (run A L rest (run A L (early ++ late) start).1).2 := by
    rw [run_append, run_append]
    simp only [since, filter_append]
    rw [← since, ← since, ← since, since_run_of_lt hearly, since_run_of_ge hlate,
      since_run_of_ge hcutoff, nil_append]
  have hfinal : (run A L (early ++ late) start).1 = (run A L late (run A L early start).1).1 := by
    rw [run_append]
  rw [hsplit, replay_append, run_append (early ++ late) rest, hfinal]
  exact (run_live_eq rest now takenAt _ _ hrest hoverlap).symm

end CellEvent
end ShardKv
