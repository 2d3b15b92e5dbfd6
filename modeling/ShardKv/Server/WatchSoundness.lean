import ShardKv.Server.StringShard

/-!
# What `WATCH` notices

An observer records for each connection the keys under watch and those whose content
another connection has changed since. `EXEC` compares fingerprints before it holds a
gate. So it notices a change exactly when the change shows in the fingerprint and
comes before the comparison, and a run in which every change does so is sound.
-/
namespace ShardKv

open List
variable {σ Command Object ρ κ : Type}

/-- `EXEC` has passed the comparison and has not run a command yet. -/
def Activity.pendingFirst : Activity Command Object → Bool
  | .execAcquiring .. => true
  | .execRunning 0 _ _ => true
  | _ => false

def watchedKeys (watched : List (WatchedKey Object)) : List Bytes := watched.map (·.key)

/-- The keys under watch that will not be compared again. -/
def validated (activity : Activity Command Object) (watched : List (WatchedKey Object))
    (guarded : List Bytes) : List Bytes :=
  match activity with
  | .validating left => (watchedKeys watched).filter fun key => key ∉ watchedKeys left
  | .execAcquiring .. => guarded
  | .execRunning 0 _ _ => guarded
  | _ => []

/-- The server beside the observer's record: for each connection the keys under watch, and
those among them that another connection's command has changed. -/
structure WatchedServer (σ Command Object ρ : Type) where
  server : ServerState σ Command Object ρ
  guarded : ℕ → List Bytes := fun _ => []
  disturbed : ℕ → List Bytes := fun _ => []

/-- The watches stand until the first queued command, although `exec` drops its list as
soon as the comparison has passed. -/
def nextGuarded (activity activity' : Activity Command Object)
    (watched watched' : List (WatchedKey Object)) (guarded : List Bytes) : List Bytes :=
  if activity'.pendingFirst then
    if activity.pendingFirst then guarded else watchedKeys watched
  else watchedKeys watched'

/-- The key that the connection fingerprints anew in the step. -/
def capturedKey (before : Connection Command Object ρ) (conn : ℕ) :
    ServerEvent Command → Option Bytes
  | .advance acting =>
    if acting = conn then
      match before.activity with
      | .watching (key :: _) => some key
      | _ => none
    else none
  | _ => none

/-- The step executes a command of another connection. -/
def ServerState.executesOther (state : ServerState σ Command Object ρ)
    (event : ServerEvent Command) (conn : ℕ) : Bool :=
  (state.executes event).any fun executed => decide (executed.1 ≠ conn)

namespace WatchedServer

variable [DecidableEq Object] [DecidableEq κ] (env : TransactionEnv σ Command Object ρ)
  (content : σ → Bytes → κ)

variable (state : WatchedServer σ Command Object ρ) (event : ServerEvent Command)

def step :
    WatchedServer σ Command Object ρ :=
  let server := state.server.step env event
  let guarded := fun conn =>
    nextGuarded (state.server.connections conn).activity (server.connections conn).activity
      (state.server.connections conn).transaction.watched
      (server.connections conn).transaction.watched (state.guarded conn)
  let changed := fun conn =>
    if state.server.executesOther event conn then
      (state.guarded conn).filter fun key =>
        content state.server.store key ≠ content server.store key
    else []
  { server
    guarded
    disturbed := fun conn =>
      (state.disturbed conn ++ changed conn).filter fun key =>
        key ∈ guarded conn ∧ capturedKey (state.server.connections conn) conn event ≠ some key }

/-- When the step runs the first command of an `EXEC`, no watched key has been changed. -/
def Sound : Prop :=
  ∀ conn command left held, event = .advance conn →
    (state.server.connections conn).activity = .execRunning 0 (command :: left) held →
      state.disturbed conn = []

/-- What a step may do to the keys that a connection watches. -/
structure VisibleTo (conn : ℕ) : Prop where
  /-- A command of another connection leaves a key alone that has been compared. -/
  before_compare : state.server.executesOther event conn = true →
    ∀ key ∈ validated (state.server.connections conn).activity
        (state.server.connections conn).transaction.watched (state.guarded conn),
      content state.server.store key = content (state.server.step env event).store key
  /-- The first change by another connection is one of the value, not of the deadline or the
  policy alone, and the key can be read before or after it. -/
  changes_value : state.server.executesOther event conn = true →
    ∀ key ∈ watchedKeys (state.server.connections conn).transaction.watched,
      key ∉ state.disturbed conn →
      content state.server.store key ≠ content (state.server.step env event).store key →
      env.capture state.server.store key ≠ env.capture (state.server.step env event).store key
  /-- No step gives a changed key the value back that it had at `WATCH`. -/
  no_return : ∀ watched ∈ (state.server.connections conn).transaction.watched,
    state.server.executesOther event conn = true ∨ watched.key ∈ state.disturbed conn →
    env.capture state.server.store watched.key ≠
      env.capture (state.server.step env event).store watched.key →
    env.capture (state.server.step env event).store watched.key ≠ watched.snapshot

instance (conn : ℕ) : Decidable (VisibleTo env content state event conn) :=
  decidable_of_iff (_ ∧ _ ∧ _) ⟨fun h => ⟨h.1, h.2.1, h.2.2⟩, fun h => ⟨h.1, h.2, h.3⟩⟩

/-- Every change to a watched key shows, whoever watches it. -/
def VisibleStep (state : WatchedServer σ Command Object ρ) (event : ServerEvent Command) : Prop :=
  ∀ conn, VisibleTo env content state event conn

end WatchedServer

/-- A changed key has not been compared yet, and the comparison will notice it. -/
structure WatchOk (env : TransactionEnv σ Command Object ρ) (store : σ)
    (watched : List (WatchedKey Object)) (activity : Activity Command Object)
    (guarded disturbed : List Bytes) : Prop where
  guarded_eq : activity.pendingFirst = false → guarded = watchedKeys watched
  disturbed_sub : disturbed ⊆ guarded
  unvalidated : ∀ key ∈ disturbed, key ∉ validated activity watched guarded
  visible : ∀ entry ∈ watched, entry.key ∈ disturbed → env.capture store entry.key ≠ entry.snapshot
  left_sub : ∀ left, activity = .validating left → left ⊆ watched

/-- What a step of a connection can do to its own watches. -/
inductive WatchMove (env : TransactionEnv σ Command Object ρ) (captured : Option Bytes)
    (store : σ) (watched : List (WatchedKey Object)) (activity : Activity Command Object) :
    σ → List (WatchedKey Object) → Activity Command Object → Prop
  /-- No comparison is under way after the step. -/
  | settled (store' watched' activity')
      (hwatched : ∀ entry ∈ watched', entry ∈ watched ∨ captured = some entry.key)
      (hpending : activity'.pendingFirst = false)
      (hvalidating : ∀ left, activity' ≠ .validating left) :
      WatchMove env captured store watched activity store' watched' activity'
  | compare : WatchMove env captured store watched activity store watched (.validating watched)
  | passed (entry left) (hactivity : activity = .validating (entry :: left))
      (hsame : env.capture store entry.key = entry.snapshot) :
      WatchMove env captured store watched activity store watched (.validating left)
  | enter (watched' activity') (hactivity : activity = .validating [])
      (hwatched : watched' = []) (hpending : activity'.pendingFirst = true) :
      WatchMove env captured store watched activity store watched' activity'
  | pending (activity') (hactivity : activity.pendingFirst = true)
      (hpending : activity'.pendingFirst = true) :
      WatchMove env captured store watched activity store watched activity'
  | same : WatchMove env captured store watched activity store watched activity

variable {activity : Activity Command Object}

theorem validated_of_pending
    (h : activity.pendingFirst = true) (watched : List (WatchedKey Object))
    (guarded : List Bytes) : validated activity watched guarded = guarded := by
  unfold Activity.pendingFirst at h
  split at h
  · rfl
  · rfl
  · cases h

theorem validated_of_settled
    (hpending : activity.pendingFirst = false) (hvalidating : ∀ left, activity ≠ .validating left)
    (watched : List (WatchedKey Object)) (guarded : List Bytes) :
    validated activity watched guarded = [] := by
  unfold validated
  split
  next left => exact absurd rfl (hvalidating left)
  next => cases hpending
  next => cases hpending
  next => rfl

theorem mem_upsertWatched {watched : List (WatchedKey Object)} {entry other : WatchedKey Object}
    (h : other ∈ upsertWatched watched entry) : other ∈ watched ∨ other = entry := by
  induction watched with
  | nil => exact .inr (mem_singleton.mp h)
  | cons first rest ih =>
    unfold upsertWatched at h
    split at h
    · rcases mem_cons.mp h with rfl | hrest
      · exact .inr rfl
      · exact .inl (mem_cons_of_mem _ hrest)
    · rcases mem_cons.mp h with rfl | hrest
      · exact .inl mem_cons_self
      · exact (ih hrest).imp_left (mem_cons_of_mem _)

section Own

variable {env : TransactionEnv σ Command Object ρ} {store store' : σ}
  {watched watched' : List (WatchedKey Object)} {activity activity' : Activity Command Object}
  {guarded disturbed : List Bytes} {captured : Option Bytes}

/-- No key has been compared yet. -/
theorem WatchOk.uncompared
    (hwatched : ∀ entry ∈ watched', entry ∈ watched ∨ captured = some entry.key)
    (hnone : validated activity' watched' (watchedKeys watched') = [])
    (hleft : ∀ left, activity' = .validating left → left ⊆ watched')
    (hvisible : ∀ entry ∈ watched, entry.key ∈ disturbed →
      env.capture store' entry.key ≠ entry.snapshot) :
    WatchOk env store' watched' activity' (watchedKeys watched')
      (disturbed.filter fun key => key ∈ watchedKeys watched' ∧ captured ≠ some key) where
  guarded_eq := fun _ => rfl
  disturbed_sub := by
    intro key hkey
    simp only [mem_filter, decide_eq_true_eq] at hkey
    exact hkey.2.1
  unvalidated := by
    intro key hkey
    rw [hnone]
    exact not_mem_nil
  visible := by
    intro entry hentry hkey
    simp only [mem_filter, decide_eq_true_eq] at hkey
    rcases hwatched entry hentry with hold | hnew
    · exact hvisible entry hold hkey.1
    · exact absurd hnew hkey.2.2
  left_sub := hleft

/-- A comparison that passes moves one key to the compared ones; had the key been changed,
it would not have passed. -/
theorem WatchOk.passed {entry : WatchedKey Object} {left : List (WatchedKey Object)}
    (hok : WatchOk env store watched (.validating (entry :: left)) guarded disturbed)
    (hsame : env.capture store entry.key = entry.snapshot) :
    WatchOk env store watched (.validating left) guarded disturbed where
  guarded_eq := hok.guarded_eq
  disturbed_sub := hok.disturbed_sub
  unvalidated := by
    intro key hkey hvalidated
    have hentry : entry ∈ watched := hok.left_sub _ rfl mem_cons_self
    have hne : key ≠ entry.key := by
      rintro rfl
      exact hok.visible entry hentry hkey hsame
    refine hok.unvalidated key hkey ?_
    simp only [validated, mem_filter, decide_eq_true_eq] at hvalidated ⊢
    refine ⟨hvalidated.1, ?_⟩
    rw [watchedKeys, map_cons, mem_cons, not_or]
    exact ⟨hne, hvalidated.2⟩
  visible := hok.visible
  left_sub := by
    rintro _ ⟨⟩
    exact fun other hother => hok.left_sub _ rfl (mem_cons_of_mem _ hother)

/-- Once all keys are compared none of them is a changed one. -/
theorem WatchOk.disturbed_eq_nil (hok : WatchOk env store watched activity guarded disturbed)
    (hall : validated activity watched guarded = guarded) : disturbed = [] := by
  rw [eq_nil_iff_forall_not_mem]
  intro key hkey
  refine hok.unvalidated key hkey ?_
  rw [hall]
  exact hok.disturbed_sub hkey

theorem WatchOk.undisturbed (hpending : activity.pendingFirst = true) :
    WatchOk env store watched activity guarded [] where
  guarded_eq := fun hfalse => absurd hfalse (by simp [hpending])
  disturbed_sub := nil_subset _
  unvalidated := by simp
  visible := by simp
  left_sub := by
    rintro left rfl
    cases hpending

section

variable (hok : WatchOk env store watched activity guarded disturbed)
include hok

theorem WatchOk.filter_sub {keep : Bytes → Bool} :
    WatchOk env store watched activity guarded (disturbed.filter keep) where
  guarded_eq := hok.guarded_eq
  disturbed_sub := fun _ hkey => hok.disturbed_sub (mem_of_mem_filter hkey)
  unvalidated := fun key hkey => hok.unvalidated key (mem_of_mem_filter hkey)
  visible := fun entry hentry hkey => hok.visible entry hentry (mem_of_mem_filter hkey)
  left_sub := hok.left_sub

theorem WatchOk.nextGuarded_self :
    nextGuarded activity activity watched watched guarded = guarded := by
  unfold nextGuarded
  split
  · rfl
  · rename_i hpending
    exact (hok.guarded_eq (by simpa using hpending)).symm

/-- A step of the connection itself keeps its record in order. -/
theorem WatchOk.move
    (hmove : WatchMove env captured store watched activity store' watched' activity')
    (hvisible : ∀ entry ∈ watched, entry.key ∈ disturbed →
      env.capture store' entry.key ≠ entry.snapshot) :
    WatchOk env store' watched' activity' (nextGuarded activity activity' watched watched' guarded)
      (disturbed.filter fun key =>
        key ∈ nextGuarded activity activity' watched watched' guarded ∧ captured ≠ some key) := by
  cases hmove with
  | settled _ _ _ hwatched hpending hvalidating =>
    have hnext : nextGuarded activity activity' watched watched' guarded = watchedKeys watched' := by
      simp [nextGuarded, hpending]
    rw [hnext]
    exact .uncompared hwatched (validated_of_settled hpending hvalidating _ _)
      (fun left hleft => absurd hleft (hvalidating left)) hvisible
  | compare =>
    refine .uncompared (fun _ => .inl) (by simp [validated]) ?_ hvisible
    rintro _ ⟨⟩
    exact List.Subset.refl _
  | passed entry left hactivity hsame =>
    have hpending : activity.pendingFirst = false := by rw [hactivity]; rfl
    have hnext : nextGuarded activity (.validating left) watched watched guarded = guarded :=
      (hok.guarded_eq hpending).symm
    rw [hnext]
    rw [hactivity] at hok
    exact (hok.passed hsame).filter_sub
  | enter _ _ hactivity hwatched hpending =>
    subst hactivity hwatched
    have hnil : disturbed = [] := by
      refine hok.disturbed_eq_nil ?_
      simp [validated, hok.guarded_eq rfl, watchedKeys]
    rw [hnil]
    exact .undisturbed hpending
  | pending _ hactivity hpending =>
    rw [hok.disturbed_eq_nil (validated_of_pending hactivity watched guarded)]
    exact .undisturbed hpending
  | same =>
    rw [hok.nextGuarded_self]
    exact hok.filter_sub

/-- A step that leaves the connection alone and, if it executes a command of another
connection, changes only keys that are still to be compared. -/
theorem WatchOk.other {changed : List Bytes}
    (hchanged : ∀ key ∈ changed, key ∈ guarded ∧ key ∉ validated activity watched guarded)
    (hvisible : ∀ entry ∈ watched, entry.key ∈ disturbed ++ changed →
      env.capture store' entry.key ≠ entry.snapshot) :
    WatchOk env store' watched activity guarded (disturbed ++ changed) where
  guarded_eq := hok.guarded_eq
  disturbed_sub := by
    intro key hkey
    rcases mem_append.mp hkey with hold | hnew
    · exact hok.disturbed_sub hold
    · exact (hchanged key hnew).1
  unvalidated := by
    intro key hkey
    rcases mem_append.mp hkey with hold | hnew
    · exact hok.unvalidated key hold
    · exact (hchanged key hnew).2
  visible := hvisible
  left_sub := hok.left_sub

end
end Own

namespace ConnectionView

variable {env : TransactionEnv σ Command Object ρ} {view view' : ConnectionView σ Command Object ρ}

/-- The step of a connection, as its watches see it. -/
def WatchStep (env : TransactionEnv σ Command Object ρ) (captured : Option Bytes)
    (view view' : ConnectionView σ Command Object ρ) : Prop :=
  WatchMove env captured view.store view.transaction.watched view.activity view'.store
    view'.transaction.watched view'.activity

theorem Started.watchStep {request : TransactionRequest Command}
    (hstart : Started env view request view') (hidle : view.activity = .idle)
    (captured : Option Bytes) : WatchStep env captured view view' := by
  rw [WatchStep]
  cases hstart with
  | cleared =>
    simp only [clear_eq, hidle]
    exact .settled _ _ _ (by simp) rfl (by simp)
  | unwatched =>
    simp only [hidle]
    exact .settled _ _ _ (by simp) rfl (by simp)
  | validating => exact .compare
  | watching | guarded | unguarded => exact .settled _ _ _ (fun _ => .inl) rfl (by simp)
  | _ =>
    simp only [hidle]
    exact .settled _ _ _ (fun _ => .inl) rfl (by simp)

variable (view) in
theorem clear_watchStep (hidle : view.activity = .idle) (captured : Option Bytes) :
    WatchStep env captured view (view.clear env) := by
  rw [WatchStep, clear_eq, hidle]
  exact .settled _ _ _ (by simp) rfl (by simp)

theorem enterExec_watchStep (hactivity : view.activity = .validating [])
    (captured : Option Bytes) : WatchStep env captured view (view.enterExec env) := by
  unfold enterExec
  split
  · rw [WatchStep, write, clear_eq]
    exact .settled _ _ _ (by simp) rfl (by simp)
  · dsimp only
    split
    · exact .settled _ _ _ (by simp [write]) rfl (by simp [write])
    · exact .enter _ _ hactivity rfl rfl

variable (view) in
theorem advance_watchStep [DecidableEq Object] (conn : ℕ) (captured : Option Bytes)
    (hcaptured : ∀ key left, view.activity = .watching (key :: left) → captured = some key) :
    WatchStep env captured view (view.advance env conn) := by
  unfold advance
  split
  case h_1 hactivity =>
    rw [WatchStep, hactivity]
    exact .settled _ _ _ (fun _ => .inl) rfl (by simp)
  case h_3 hactivity =>
    split
    · rw [WatchStep, hactivity]
      exact .settled _ _ _ (fun _ => .inl) rfl (by simp)
    · exact .settled _ _ _ (fun _ => .inl) rfl (by simp)
  case h_7 key left hactivity =>
    refine .settled _ _ _ (fun entry hentry => ?_) rfl (by simp)
    rcases mem_upsertWatched hentry with hold | rfl
    · exact .inl hold
    · exact .inr (hcaptured key left hactivity)
  case h_9 entry left hactivity =>
    split
    next hsame => exact .passed entry left hactivity hsame
    next =>
      rw [WatchStep, write, clear_eq]
      exact .settled _ _ _ (by simp) rfl (by simp)
  case h_10 hactivity => exact enterExec_watchStep hactivity captured
  case h_11 hactivity =>
    split
    · exact .pending _ (by rw [hactivity]; rfl) (by rw [hactivity]; rfl)
    · exact .pending _ (by rw [hactivity]; rfl) rfl
  case h_12 hactivity => exact .pending _ (by rw [hactivity]; rfl) rfl
  case h_16 =>
    rw [finishCountedTransaction_eq]
    exact .settled _ _ _ (fun _ => .inl) rfl (by simp)
  -- everywhere else the watches stay and no comparison is under way
  all_goals exact .settled _ _ _ (fun _ => .inl) rfl (by simp [write])

end ConnectionView

namespace WatchedServer

variable {env : TransactionEnv σ Command Object ρ} {content : σ → Bytes → κ}
  {state : WatchedServer σ Command Object ρ} {event : ServerEvent Command}
  {server : ServerState σ Command Object ρ}

def Ok (env : TransactionEnv σ Command Object ρ) (state : WatchedServer σ Command Object ρ) : Prop :=
  ∀ conn, WatchOk env state.server.store (state.server.connections conn).transaction.watched
    (state.server.connections conn).activity (state.guarded conn) (state.disturbed conn)

theorem Ok.init (store : σ) : Ok env { server := { store := store } } := by
  intro conn
  constructor <;> simp [watchedKeys]

theorem Ok.sound (hok : Ok env state) : Sound state event := by
  intro conn command left held _ hactivity
  refine (hok conn).disturbed_eq_nil (validated_of_pending ?_ _ _)
  rw [hactivity]
  rfl

/-- The connection that a step belongs to. -/
def acting : ServerEvent Command → Option ℕ
  | .request conn _ => some conn
  | .advance conn => some conn
  | .close conn => some conn
  | .elapse _ => none

theorem executesOther_eq_false {conn : ℕ} (hacting : acting event = some conn) :
    server.executesOther event conn = false := by
  cases event with
  | advance =>
    cases hacting
    simp only [ServerState.executesOther, ServerState.executes]
    split <;> simp
  | _ => rfl

theorem capturedKey_eq_none {conn : ℕ} {before : Connection Command Object ρ}
    (hacting : acting event ≠ some conn) : capturedKey before conn event = none := by
  cases event with
  | advance =>
    simp only [acting, ne_eq, Option.some.injEq] at hacting
    simp [capturedKey, hacting]
  | _ => rfl

variable [DecidableEq Object]

theorem connections_step_of_ne {conn : ℕ} (hacting : acting event ≠ some conn) :
    (server.step env event).connections conn = server.connections conn := by
  have hput : ∀ other view, other ≠ conn →
      (server.put other view).connections conn = server.connections conn := by
    intro other view hother
    exact Function.update_of_ne hother.symm _ _
  cases event with
  | request other request | close other =>
    simp only [acting, ne_eq, Option.some.injEq] at hacting
    simp only [ServerState.step]
    split
    · exact hput other _ hacting
    · rfl
  | advance other =>
    simp only [acting, ne_eq, Option.some.injEq] at hacting
    exact hput other _ hacting
  | elapse => rfl

/-- A step of a connection is one of its moves. -/
theorem watchStep_step {conn : ℕ} (hacting : acting event = some conn) :
    ConnectionView.WatchStep env (capturedKey (server.connections conn) conn event)
      (server.view conn) ((server.step env event).view conn) := by
  have hput : ∀ view, (server.put conn view).view conn = view := by
    intro view
    simp [ServerState.put, ServerState.view]
  cases event with
  | request acting request =>
    cases hacting
    simp only [ServerState.step]
    split
    next hidle =>
      rw [hput]
      exact (ConnectionView.start_started env (server.view conn) request).watchStep hidle _
    next => exact .same
  | advance =>
    cases hacting
    rw [ServerState.step, hput]
    apply ConnectionView.advance_watchStep (server.view conn) conn _
    intro key left hactivity
    have hwatching : (server.connections conn).activity = .watching (key :: left) := hactivity
    simp [capturedKey, hwatching]
  | close =>
    cases hacting
    simp only [ServerState.step]
    split
    next hidle =>
      rw [hput]
      exact ConnectionView.clear_watchStep (server.view conn) hidle _
    next => exact .same
  | elapse => cases hacting

/-- A key that has been changed is seen to be, before and after the step. -/
theorem Ok.visible_step (hok : Ok env state) (hvisible : VisibleStep env content state event)
    (conn : ℕ) : ∀ entry ∈ (state.server.connections conn).transaction.watched,
      entry.key ∈ state.disturbed conn →
      env.capture (state.server.step env event).store entry.key ≠ entry.snapshot := by
  intro entry hentry hkey
  by_cases hcapture : env.capture state.server.store entry.key =
      env.capture (state.server.step env event).store entry.key
  · rw [← hcapture]
    exact (hok conn).visible entry hentry hkey
  · exact (hvisible conn).no_return entry hentry (.inr hkey) hcapture

variable [DecidableEq κ]

theorem Ok.step (hok : Ok env state) (hvisible : VisibleStep env content state event) :
    Ok env (state.step env content event) := by
  intro conn
  by_cases hacting : acting event = some conn
  · have hmove := (hok conn).move (watchStep_step hacting) (hok.visible_step hvisible conn)
    simp only [WatchedServer.step, executesOther_eq_false hacting, Bool.false_eq_true, if_false,
      append_nil]
    exact hmove
  · simp only [WatchedServer.step, connections_step_of_ne hacting, capturedKey_eq_none hacting,
      (hok conn).nextGuarded_self]
    refine WatchOk.filter_sub ((hok conn).other ?_ ?_)
    · intro key hkey
      split at hkey
      next hother =>
        simp only [mem_filter, decide_eq_true_eq] at hkey
        exact ⟨hkey.1, fun hvalidated =>
          hkey.2 ((hvisible conn).before_compare hother key hvalidated)⟩
      next => cases hkey
    · intro entry hentry hkey
      rcases mem_append.mp hkey with hold | hnew
      · exact hok.visible_step hvisible conn entry hentry hold
      · split at hnew
        next hother =>
          simp only [mem_filter, decide_eq_true_eq] at hnew
          by_cases hold : entry.key ∈ state.disturbed conn
          · exact hok.visible_step hvisible conn entry hentry hold
          · have hvalue := (hvisible conn).changes_value hother entry.key
              (mem_map_of_mem hentry) hold hnew.2
            exact (hvisible conn).no_return entry hentry (.inl hother) hvalue
        next => cases hnew

omit [DecidableEq κ] in
theorem visibleTo_of_new {conn : ℕ} (hnew : state.server.connections conn = {}) :
    VisibleTo env content state event conn where
  before_compare := by simp [hnew, validated]
  changes_value := by simp [hnew, watchedKeys]
  no_return := by simp [hnew]

/-- Only the connections that take part in a run have to be looked at. -/
theorem safeRun_of_taking_part (conns : List ℕ) (events : List (ServerEvent Command)) :
    ∀ state, (∀ conn, conn ∉ conns → state.server.connections conn = {}) →
      (∀ event ∈ events, ∀ conn, acting event = some conn → conn ∈ conns) →
      SafeRun (step env content)
        (fun state event => ∀ conn ∈ conns, VisibleTo env content state event conn) state events →
      SafeRun (step env content) (VisibleStep env content) state events := by
  induction events with
  | nil => exact fun _ _ _ _ => trivial
  | cons event events ih =>
    intro state hnew hacting hrun
    rw [forall_mem_cons] at hacting
    refine ⟨fun conn => ?_, ih _ (fun conn hconn => ?_) hacting.2 hrun.2⟩
    · by_cases hconn : conn ∈ conns
      · exact hrun.1 conn hconn
      · exact visibleTo_of_new (hnew conn hconn)
    · have hother : acting event ≠ some conn := fun h => hconn (hacting.1 conn h)
      rw [WatchedServer.step, connections_step_of_ne hother]
      exact hnew conn hconn

/-- Soundness of `WATCH` over whole runs. -/
theorem watch_sound (env : TransactionEnv σ Command Object ρ) (content : σ → Bytes → κ)
    (store : σ) (events : List (ServerEvent Command))
    (hvisible : SafeRun (step env content) (VisibleStep env content)
      { server := { store := store } } events) :
    ∀ front event, front ++ [event] <+: events →
      Sound (front.foldl (step env content) { server := { store := store } }) event := by
  intro front event hfront
  have hrun := hvisible.front ((prefix_append front [event]).trans hfront)
  have hok : Ok env _ :=
    SafeRun.invariant (fun _ _ hok hsafe => hok.step hsafe) front _ (Ok.init store) hrun
  exact hok.sound

/-- Connection 1 watches a key and queues a `SET` of it, and connection 2 sets a key
between the two. -/
def setBetween (key : Bytes) : List (ServerEvent StringCommand) :=
  [.request 1 (.control .watch [[1]]), .advance 1, .advance 1,
    .request 2 (.command (.set key [9])), .advance 2,
    .request 1 (.control .multi []), .request 1 (.command (.set [1] [2])),
    .request 1 (.control .exec []), .advance 1, .advance 1, .advance 1, .advance 1]

/-- The server after so many events of the run. -/
def afterSetBetween (key : Bytes) (n : ℕ) :
    WatchedServer StringShard StringCommand Empty (Option Bytes) :=
  ((setBetween key).take n).foldl (step (StringShard.env .shardLocal) StringShard.content)
    { server := { store := {} } }

theorem safeRun_setBetween (key : Bytes) (hkey : key = [1] ∨ key = [2]) :
    SafeRun (step (StringShard.env .shardLocal) StringShard.content)
      (VisibleStep (StringShard.env .shardLocal) StringShard.content)
      { server := { store := {} } } (setBetween key ++ [.advance 1]) := by
  refine safeRun_of_taking_part [1, 2] _ _ (fun _ _ => rfl) (by simp [setBetween, acting]) ?_
  rcases hkey with rfl | rfl
  · decide +kernel
  · decide +kernel

/-- A changed watched key makes `EXEC` answer null; after a change of another key it runs. -/
theorem watch_sound_setBetween :
    (∀ key ∈ ([[1], [2]] : List Bytes), Sound (afterSetBetween key 12) (.advance 1)) ∧
      (afterSetBetween [1] 8).disturbed 1 = [[1]] ∧
      ((afterSetBetween [1] 12).server.connections 1).replies.getLast? = some .nullArray ∧
      ((afterSetBetween [2] 12).server.connections 1).activity =
        .execRunning 0 [.set [1] [2]] [0] := by
  refine ⟨fun key hkey => ?_, by decide +kernel, by decide +kernel, rfl⟩
  exact watch_sound (StringShard.env .shardLocal) StringShard.content {} _
    (safeRun_setBetween key (by simpa using hkey)) _ _ prefix_rfl

/-- A deadline set by connection 2 between `WATCH` and `EXEC` of connection 1 leaves the
fingerprint as it was: the queue runs. -/
theorem deadlineChange_unnoticed : ∃ front : List (ServerEvent StringCommand),
      ¬ Sound (front.foldl (step (StringShard.env .shardLocal) StringShard.content)
          { server := { store := {} } }) (.advance 1) := by
  refine ⟨[.request 2 (.command (.set [1] [2])), .advance 2,
    .request 1 (.control .watch [[1]]), .advance 1, .advance 1,
    .request 2 (.command (.pexpireat [1] 9)), .advance 2,
    .request 1 (.control .multi []), .request 1 (.command (.set [1] [3])),
    .request 1 (.control .exec []), .advance 1, .advance 1, .advance 1, .advance 1], ?_⟩
  intro hsound
  have hnil := hsound 1 (.set [1] [3]) [] [0] rfl rfl
  exact absurd hnil (by decide +kernel)

end WatchedServer
end ShardKv
