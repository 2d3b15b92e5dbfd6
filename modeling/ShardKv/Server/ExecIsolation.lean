import ShardKv.Server.StringShard

/-!
# Isolation of `EXEC`

A gate has either readers or one writer, so a connection that runs its queue under
the write gates is alone on those shards among the connections that take gates. A
command that takes none is the exception. It arises in two ways: the counter was
still zero when the connection looked, or the port never asks.
-/
namespace ShardKv

open Function List ConnectionView ServerState
variable {σ Command Object ρ : Type} {counted : ℕ → Bool}

namespace Activity

def reads : Activity Command Object → List ℕ
  | .acquiring _ held _ => held
  | .releasing held => held
  | _ => []

def writes : Activity Command Object → List ℕ
  | .execAcquiring _ held _ => held
  | .execRunning _ _ held => held
  | .execReleasing held => held
  | _ => []

def isUnguarded : Activity Command Object → Bool
  | .unguarded _ => true
  | _ => false

def inExec : Activity Command Object → Bool
  | .execAcquiring .. => true
  | .execRunning .. => true
  | .execReleasing _ => true
  | _ => false

/-- The commands still to run under gates touch only shards whose gates are held or are
still to be taken. -/
def Covered (keyShards : Command → List ℕ) : Activity Command Object → Prop
  | .acquiring command held left => keyShards command ⊆ held ++ left
  | .execAcquiring commands held left => ∀ command ∈ commands, keyShards command ⊆ held ++ left
  | .execRunning _ left held => ∀ command ∈ left, keyShards command ⊆ held
  | _ => True

end Activity

/-- A connection keeps its gates, or takes or drops one. -/
inductive GateMove (conn : ℕ) (gates : ℕ → Gate) :
    List ℕ → List ℕ → (ℕ → Gate) → List ℕ → List ℕ → Prop
  | keep (reads writes) : GateMove conn gates reads writes gates reads writes
  | read (reads writes) (shard : ℕ) (hfree : (gates shard).writer = none) :
      GateMove conn gates reads writes
        (Function.update gates shard ((gates shard).read conn)) (reads ++ [shard]) writes
  | unread (reads writes) (shard : ℕ) : GateMove conn gates (shard :: reads) writes
        (Function.update gates shard ((gates shard).unread conn)) reads writes
  | lock (reads writes) (shard : ℕ) (hfree : (gates shard).writer = none)
      (hidle : (gates shard).readers = []) :
      GateMove conn gates reads writes
        (Function.update gates shard { gates shard with writer := some conn })
        reads (writes ++ [shard])
  | unlock (reads writes) (shard : ℕ) : GateMove conn gates reads (shard :: writes)
        (Function.update gates shard { gates shard with writer := none }) reads writes

/-- The gates agree with what the connections hold. -/
structure GatesOk (gates : ℕ → Gate) (reads writes : ℕ → List ℕ) : Prop where
  reads_le : ∀ conn shard, (reads conn).count shard ≤ (gates shard).readers.count conn
  writes_eq : ∀ conn, ∀ shard ∈ writes conn, (gates shard).writer = some conn
  nodup : ∀ conn, (writes conn).Nodup
  exclusive : ∀ shard, (gates shard).writer ≠ none → (gates shard).readers = []

namespace GatesOk

theorem start : GatesOk (fun _ => {}) (fun _ => []) (fun _ => []) where
  reads_le := by simp
  writes_eq := by simp
  nodup := by simp
  exclusive := by simp

variable {gates : ℕ → Gate} {reads writes : ℕ → List ℕ} {conn : ℕ}
  (hok : GatesOk gates reads writes)
include hok

theorem move {gates' : ℕ → Gate} {reads' writes' : List ℕ}
    (hmove : GateMove conn gates (reads conn) (writes conn) gates' reads' writes') :
    GatesOk gates' (Function.update reads conn reads') (Function.update writes conn writes') := by
  have hown := hok.reads_le conn
  have hheld := hok.writes_eq conn
  have hnodup := hok.nodup conn
  generalize hreads : reads conn = ownReads at hmove hown
  generalize hwrites : writes conn = ownWrites at hmove hheld hnodup
  constructor
  case reads_le =>
    intro other at_
    have hle := hok.reads_le other at_
    cases hmove with grind [Gate.read, Gate.unread, update_apply]
  case writes_eq =>
    intro other at_ hmem
    have heq := hok.writes_eq other at_
    cases hmove with grind [Gate.read, Gate.unread, update_apply]
  case nodup =>
    intro other
    have hother := hok.nodup other
    -- a gate that is free was not held
    cases hmove with grind [update_apply]
  case exclusive =>
    intro at_ hsome
    have hempty := hok.exclusive at_
    cases hmove with grind [Gate.read, Gate.unread, update_apply]

end GatesOk

/-- What holds of every connection: a transaction that is open or running is counted, and
the commands it is to run are covered by their gates. -/
structure ConnectionOk (env : TransactionEnv σ Command Object ρ) (keyShards : Command → List ℕ)
    (transaction : TransactionState Command Object) (activity : Activity Command Object) :
    Prop where
  counted_of_active : transaction.active → transaction.countedActive
  counted_of_inExec : activity.inExec → transaction.countedActive
  closed_of_inExec : activity.inExec → transaction.active = false
  active_of_validating : ∀ left, activity = .validating left → transaction.active
  mode_of_counted : transaction.countedActive → env.mode.isSome
  queued_covered : ∀ command ∈ transaction.queued, keyShards command ⊆ env.commandShards command
  covered : activity.Covered keyShards

/-- The transaction stays as it is. -/
theorem ConnectionOk.move {env : TransactionEnv σ Command Object ρ} {keyShards : Command → List ℕ}
    {transaction : TransactionState Command Object} {activity activity' : Activity Command Object}
    (hok : ConnectionOk env keyShards transaction activity)
    (hexec : activity'.inExec → activity.inExec)
    (hvalid : ∀ left, activity' = .validating left → transaction.active)
    (hcovered : activity'.Covered keyShards) :
    ConnectionOk env keyShards transaction activity' :=
  { hok with
    counted_of_inExec := fun h => hok.counted_of_inExec (hexec h)
    closed_of_inExec := fun h => hok.closed_of_inExec (hexec h)
    active_of_validating := hvalid
    covered := hcovered }

/-- The counter follows the connection's own flag. -/
inductive CounterMove : Bool → ℕ → Bool → ℕ → Prop
  | keep (counted active) : CounterMove counted active counted active
  | enter (active) : CounterMove false active true (active + 1)
  | leave (active) : CounterMove true active false (active - 1)

/-- The counter is the number of connections with a counted transaction. -/
def CounterOk (active : ℕ) (counted : ℕ → Bool) : Prop :=
  ∃ conns : Finset ℕ, (∀ conn, counted conn = true ↔ conn ∈ conns) ∧ active = conns.card

theorem CounterOk.pos {active : ℕ} (hok : CounterOk active counted) {conn : ℕ}
    (hconn : counted conn = true) : active ≠ 0 := by
  obtain ⟨conns, hmem, rfl⟩ := hok
  exact Finset.card_ne_zero_of_mem ((hmem conn).mp hconn)

theorem CounterOk.eq_zero {active : ℕ} (hok : CounterOk active counted)
    (hnone : ∀ conn, counted conn = false) : active = 0 := by
  obtain ⟨conns, hmem, rfl⟩ := hok
  rw [Finset.card_eq_zero, Finset.eq_empty_iff_forall_notMem]
  intro conn hconn
  simp [hnone conn, ← hmem conn] at hconn

theorem CounterOk.move {active active' : ℕ} {conn : ℕ} {counted' : Bool}
    (hok : CounterOk active counted) (hmove : CounterMove (counted conn) active counted' active') :
    CounterOk active' (Function.update counted conn counted') := by
  obtain ⟨conns, hmem, hcard⟩ := hok
  generalize hown : counted conn = own at hmove
  cases hmove with
  | keep => exact ⟨conns, by simpa [← hown] using hmem, hcard⟩
  | enter =>
    have hnew : conn ∉ conns := by simp [← hmem, hown]
    refine ⟨insert conn conns, ?_, by rw [Finset.card_insert_of_notMem hnew, hcard]⟩
    intro other
    grind [update_apply]
  | leave =>
    have hold : conn ∈ conns := (hmem conn).mp hown
    refine ⟨conns.erase conn, ?_, by rw [Finset.card_erase_of_mem hold, hcard]⟩
    intro other
    grind [update_apply]

namespace ConnectionView

variable {env : TransactionEnv σ Command Object ρ} {keyShards : Command → List ℕ}
  {view : ConnectionView σ Command Object ρ}

/-- The condition on a request, in the state it meets, under which isolation is kept. -/
def GatedRequest (env : TransactionEnv σ Command Object ρ) (keyShards : Command → List ℕ)
    (active : ℕ) : TransactionRequest Command → Prop
  | .command command => keyShards command ⊆ env.commandShards command
  | .typed command => keyShards command ⊆ env.fastRequestShards command
  | .direct _ => active = 0
  | _ => True

variable (env view) in
theorem clear_counter (hmode : view.transaction.countedActive → env.mode.isSome) :
    CounterMove view.transaction.countedActive view.activeTransactions
      (view.clear env).transaction.countedActive (view.clear env).activeTransactions := by
  rw [clear_eq]
  cases hcounted : view.transaction.countedActive with
  | false => exact .keep _ _
  | true =>
    rw [if_pos ⟨rfl, hmode hcounted⟩]
    exact .leave _

variable (env keyShards) in
theorem connectionOk_empty : ConnectionOk env keyShards {} .idle := by
  constructor <;> simp [Activity.inExec, Activity.Covered]

/-- What every step of a connection keeps. -/
structure StepOk (env : TransactionEnv σ Command Object ρ) (keyShards : Command → List ℕ)
    (conn : ℕ) (view view' : ConnectionView σ Command Object ρ) : Prop where
  gates : GateMove conn view.gates view.activity.reads view.activity.writes view'.gates
    view'.activity.reads view'.activity.writes
  counter : CounterMove view.transaction.countedActive view.activeTransactions
    view'.transaction.countedActive view'.activeTransactions
  connection : ConnectionOk env keyShards view'.transaction view'.activity

/-- A connection that leaves its transaction is done with its request. -/
theorem StepOk.cleared (conn : ℕ) (hok : ConnectionOk env keyShards view.transaction view.activity)
    {activity : Activity Command Object} (hactivity : view.activity = activity)
    (replies : List (TransactionReply ρ)) (hreads : activity.reads = [] := by rfl)
    (hwrites : activity.writes = [] := by rfl) :
    StepOk env keyShards conn view { view.clear env with activity := .idle, replies } where
  gates := by
    rw [hactivity, hreads, hwrites, clear_eq]
    exact .keep _ _
  counter := clear_counter _ _ hok.mode_of_counted
  connection := by
    rw [clear_eq]
    exact connectionOk_empty env keyShards

theorem start_ok (conn : ℕ) {request : TransactionRequest Command}
    {view' : ConnectionView σ Command Object ρ} (hidle : view.activity = .idle)
    (hok : ConnectionOk env keyShards view.transaction view.activity)
    (hgated : GatedRequest env keyShards view.activeTransactions request)
    (hstart : Started env view request view') : StepOk env keyShards conn view view' := by
  have hmoved : ∀ activity, activity.inExec = false →
      activity.reads = [] → activity.writes = [] →
      (∀ left, activity = .validating left → view.transaction.active) →
      activity.Covered keyShards → StepOk env keyShards conn view { view with activity } := by
    intro activity hexec hreads hwrites hvalid hcovered
    refine ⟨?_, .keep _ _, hok.move (by simp [hexec]) hvalid hcovered⟩
    rw [hidle]
    rw [hreads, hwrites]
    exact .keep _ _
  cases hstart with
  | answered | unwatched | dirtied => exact ⟨.keep _ _, .keep _ _, { hok with }⟩
  | cleared replies =>
    have hcleared := StepOk.cleared conn hok hidle replies
    have hactivity : (view.clear env).activity = .idle := by rw [clear_eq, hidle]
    rwa [← hactivity] at hcleared
  | opened replies args hrequest hsome =>
    refine ⟨.keep _ _, ?_, fun _ => rfl, fun _ => rfl, by simp [hidle, Activity.inExec],
      by simp [hidle], fun _ => hsome, by simp, hok.covered⟩
    cases view.transaction.countedActive with
    | false => exact .enter _
    | true => exact .keep _ _
  | queued replies command hrequest =>
    subst hrequest
    refine ⟨.keep _ _, .keep _ _, { hok with queued_covered := ?_ }⟩
    intro other hmem
    rcases mem_append.mp hmem with hold | hnew
    · exact hok.queued_covered other hold
    · rw [mem_singleton.mp hnew]
      exact hgated
  | validating hopen => exact hmoved _ rfl rfl rfl (fun _ _ => hopen) trivial
  | watching | unguarded => exact hmoved _ rfl rfl rfl nofun trivial
  | guarded command shards hrequest =>
    refine hmoved _ rfl rfl rfl nofun ?_
    rcases hrequest with ⟨rfl, rfl⟩ | ⟨rfl, rfl⟩
    · exact hgated
    · exact hgated

theorem mem_transactionShards {commands : List Command} {command : Command}
    (hmem : command ∈ commands) :
    env.commandShards command ⊆ env.transactionShards commands := by
  intro shard hshard
  rw [TransactionEnv.transactionShards, mem_insertionSort, mem_dedup]
  exact mem_flatMap_of_mem hmem hshard

/-- What the steps after the first keep: they neither open a transaction nor lead to a command
under no gate. -/
structure AdvanceOk (env : TransactionEnv σ Command Object ρ) (keyShards : Command → List ℕ)
    (conn : ℕ) (view view' : ConnectionView σ Command Object ρ) : Prop extends
    StepOk env keyShards conn view view' where
  guarded : view'.activity.isUnguarded = false
  active_le : view'.activeTransactions ≤ view.activeTransactions

namespace AdvanceOk

variable {conn : ℕ} {view' : ConnectionView σ Command Object ρ} {activity : Activity Command Object}
  (hok : ConnectionOk env keyShards view.transaction view.activity)
include hok

section

variable (hactivity : view.activity = activity)
include hactivity

theorem stay (hguarded : activity.isUnguarded = false) : AdvanceOk env keyShards conn view view :=
  ⟨⟨.keep _ _, .keep _ _, hok⟩, by rwa [hactivity], le_rfl⟩

/-- A step that leaves the transaction as it is. -/
theorem moved (hgates : GateMove conn view.gates activity.reads activity.writes view'.gates
      view'.activity.reads view'.activity.writes)
    (hexec : view'.activity.inExec → activity.inExec)
    (hvalid : ∀ left, view'.activity = .validating left → ∃ left, activity = .validating left)
    (hcovered : activity.Covered keyShards → view'.activity.Covered keyShards)
    (htransaction : view'.transaction = view.transaction := by rfl)
    (hactive : view'.activeTransactions = view.activeTransactions := by rfl)
    (hguarded : view'.activity.isUnguarded = false := by rfl) :
    AdvanceOk env keyShards conn view view' := by
  subst hactivity
  refine ⟨⟨hgates, ?_, ?_⟩, hguarded, hactive.le⟩
  · rw [htransaction, hactive]
    exact .keep _ _
  · rw [htransaction]
    refine hok.move hexec (fun left hleft => ?_) (hcovered hok.covered)
    obtain ⟨before, hbefore⟩ := hvalid left hleft
    exact hok.active_of_validating before hbefore

theorem cleared (replies : List (TransactionReply ρ))
    (hreads : activity.reads = [] := by rfl) (hwrites : activity.writes = [] := by rfl) :
    AdvanceOk env keyShards conn view { view.clear env with activity := .idle, replies } where
  toStepOk := .cleared conn hok hactivity replies hreads hwrites
  guarded := rfl
  active_le := by
    rw [clear_eq]
    dsimp only
    split <;> omega

end

theorem enterExec (hactivity : view.activity = .validating []) :
    AdvanceOk env keyShards conn view (view.enterExec env) := by
  have hcounted := hok.counted_of_active (hok.active_of_validating [] hactivity)
  have hgates : ∀ activity : Activity Command Object, activity.reads = [] →
      activity.writes = [] → GateMove conn view.gates view.activity.reads view.activity.writes
        view.gates activity.reads activity.writes := by
    intro activity hreads hwrites
    rw [hactivity, hreads, hwrites]
    exact .keep _ _
  unfold ConnectionView.enterExec
  split
  · exact cleared hok hactivity _
  · dsimp only
    split
    · exact ⟨⟨hgates _ rfl rfl, .keep _ _, by simp [write], fun _ => hcounted, fun _ => rfl,
        by simp [write], hok.mode_of_counted, by simp [write], trivial⟩, rfl, le_rfl⟩
    · refine ⟨⟨hgates _ rfl rfl, .keep _ _, by simp, fun _ => hcounted, fun _ => rfl, by simp,
        hok.mode_of_counted, by simp, ?_⟩, rfl, le_rfl⟩
      intro command hcommand
      exact List.Subset.trans (hok.queued_covered command hcommand) (mem_transactionShards hcommand)

end AdvanceOk

theorem advance_ok [DecidableEq Object] (conn : ℕ)
    (hok : ConnectionOk env keyShards view.transaction view.activity) :
    AdvanceOk env keyShards conn view (view.advance env conn) := by
  unfold advance
  split
  next hactivity => exact .stay hok hactivity rfl
  next command hactivity => exact .moved hok hactivity (.keep _ _) nofun nofun fun _ => trivial
  next command held shard left hactivity =>
    split
    next => exact .stay hok hactivity rfl
    next hfree =>
      refine .moved hok hactivity (.read held [] shard (by simpa using hfree)) nofun nofun ?_
      simp [Activity.Covered]
  next command held hactivity => exact .moved hok hactivity (.keep _ _) nofun nofun fun _ => trivial
  next shard held hactivity =>
    exact .moved hok hactivity (.unread _ _ _) nofun nofun fun _ => trivial
  next hactivity => exact .moved hok hactivity (.keep _ _) nofun nofun fun _ => trivial
  next key left hactivity =>
    have hmoved : AdvanceOk env keyShards conn view { view with activity := .watching left } :=
      .moved hok hactivity (.keep _ _) nofun nofun fun _ => trivial
    exact ⟨⟨hmoved.gates, .keep _ _, { hmoved.connection with }⟩, rfl, le_rfl⟩
  next hactivity => exact .moved hok hactivity (.keep _ _) nofun nofun fun _ => trivial
  next watched left hactivity =>
    split
    · exact .moved hok hactivity (.keep _ _) nofun (fun _ _ => ⟨_, rfl⟩) fun _ => trivial
    · exact .cleared hok hactivity _
  next hactivity => exact .enterExec hok hactivity
  next commands held shard left hactivity =>
    split
    next => exact .stay hok hactivity rfl
    next hfree =>
      rw [not_or, not_not] at hfree
      refine .moved hok hactivity (.lock [] held shard (by simpa using hfree.1) hfree.2)
        (fun _ => rfl) nofun ?_
      simp [Activity.Covered]
  next commands held hactivity =>
    refine .moved hok hactivity (.keep _ _) (fun _ => rfl) nofun ?_
    simp [write, Activity.Covered]
  next done command left held hactivity =>
    exact .moved hok hactivity (.keep _ _) (fun _ => rfl) (by simp) fun hcovered other hother =>
      hcovered other (mem_cons_of_mem _ hother)
  next done held hactivity =>
    exact .moved hok hactivity (.keep _ _) (fun _ => rfl) (by simp) fun _ => trivial
  next shard held hactivity =>
    exact .moved hok hactivity (.unlock _ _ _) (fun _ => rfl) (by simp) fun _ => trivial
  next hactivity =>
    have hclosed := hok.closed_of_inExec (by rw [hactivity]; rfl)
    have hcounter := clear_counter env view hok.mode_of_counted
    have hcleared : AdvanceOk env keyShards conn view _ := .cleared hok hactivity view.replies
    rw [clear_eq] at hcounter hcleared
    rw [finishCountedTransaction_eq]
    exact ⟨⟨hcleared.gates, hcounter, fun hopen => absurd hopen (by simp [hclosed]),
      by simp [Activity.inExec], by simp [Activity.inExec], by simp, by simp,
      hok.queued_covered, trivial⟩, rfl, hcleared.active_le⟩

end ConnectionView

namespace ServerState

variable {env : TransactionEnv σ Command Object ρ} {keyShards : Command → List ℕ}
  {state : ServerState σ Command Object ρ} {event : ServerEvent Command}

/-- The gates and the counter say what the connections do, and while a transaction is
counted no connection is about to run a command under no gate. -/
structure GatedOk (env : TransactionEnv σ Command Object ρ) (keyShards : Command → List ℕ)
    (state : ServerState σ Command Object ρ) : Prop where
  gates : GatesOk state.gates (fun conn => (state.connections conn).activity.reads)
    (fun conn => (state.connections conn).activity.writes)
  counter : CounterOk state.activeTransactions
    (fun conn => (state.connections conn).transaction.countedActive)
  connections : ∀ conn, ConnectionOk env keyShards (state.connections conn).transaction
    (state.connections conn).activity
  guarded : state.activeTransactions ≠ 0 →
    ∀ conn, (state.connections conn).activity.isUnguarded = false

/-- A step that cannot lead to an unguarded command beside a transaction: `MULTI` does not
overtake a command that found the counter at zero, a direct port is used only while no
transaction is counted, and a command's gates cover the shards of its keys. -/
def GatedStep (env : TransactionEnv σ Command Object ρ) (keyShards : Command → List ℕ)
    (state : ServerState σ Command Object ρ) : ServerEvent Command → Prop
  | .request _ (.control .multi _) =>
    state.activeTransactions = 0 → ∀ conn, (state.connections conn).activity.isUnguarded = false
  | .request _ request =>
    ConnectionView.GatedRequest env keyShards state.activeTransactions request
  | _ => True

theorem connections_put (conn : ℕ) (view : ConnectionView σ Command Object ρ) {α : Type}
    (f : Connection Command Object ρ → α) :
    (fun other => f ((state.put conn view).connections other)) =
      Function.update (fun other => f (state.connections other)) conn
        (f ⟨view.transaction, view.activity, view.replies⟩) :=
  comp_update f state.connections conn _

section

variable (hok : GatedOk env keyShards state)
include hok

theorem GatedOk.put {conn : ℕ} {view : ConnectionView σ Command Object ρ}
    (hstep : ConnectionView.StepOk env keyShards conn (state.view conn) view)
    (hothers : view.activeTransactions ≠ 0 → state.activeTransactions = 0 → ∀ other,
      (state.connections other).activity.isUnguarded = false)
    (hown : view.activity.isUnguarded = true → view.activeTransactions = 0) :
    GatedOk env keyShards (state.put conn view) where
  gates := by
    rw [connections_put conn view (fun c => c.activity.reads),
      connections_put conn view (fun c => c.activity.writes)]
    exact hok.gates.move hstep.gates
  counter := by
    rw [connections_put conn view (fun c => c.transaction.countedActive)]
    exact hok.counter.move hstep.counter
  connections := by
    intro other
    by_cases hother : other = conn
    · subst hother
      simpa [ServerState.put] using hstep.connection
    · simpa [ServerState.put, hother] using hok.connections other
  guarded := by
    intro hactive other
    by_cases hother : other = conn
    · subst hother
      have hfalse : view.activity.isUnguarded ≠ true := fun htrue => hactive (hown htrue)
      simpa [ServerState.put] using hfalse
    · have hold : (state.connections other).activity.isUnguarded = false := by
        by_cases hzero : state.activeTransactions = 0
        · exact hothers hactive hzero other
        · exact hok.guarded hzero other
      simpa [ServerState.put, hother] using hold

theorem GatedOk.mode_none (hmode : env.mode = none) : state.activeTransactions = 0 := by
  apply hok.counter.eq_zero
  intro conn
  by_contra hcounted
  have hsome := (hok.connections conn).mode_of_counted (by simpa using hcounted)
  simp [hmode] at hsome

theorem GatedOk.request {conn : ℕ} {request : TransactionRequest Command}
    (hidle : (state.connections conn).activity = .idle)
    (hgated : GatedStep env keyShards state (.request conn request)) :
    GatedOk env keyShards (state.put conn ((state.view conn).start env request)) := by
  have hstart := start_started env (state.view conn) request
  generalize (state.view conn).start env request = view at hstart ⊢
  have hrequest : ConnectionView.GatedRequest env keyShards state.activeTransactions request := by
    cases request with
    | control => trivial
    | _ => exact hgated
  refine hok.put (start_ok conn hidle (hok.connections conn) hrequest hstart) ?_ ?_
  · intro hactive hzero
    cases hstart with
    | opened replies args hmulti =>
      subst hmulti
      exact hgated hzero
    | cleared =>
      simp only [clear_eq, view, hzero] at hactive
      exact absurd (by split <;> rfl) hactive
    | _ => exact absurd hzero hactive
  · intro hunguarded
    cases hstart with
    | unguarded command hcause =>
      rcases hcause with hnone | hzero | hdirect
      · exact hok.mode_none hnone
      · exact hzero
      · subst hdirect
        exact hgated
    | cleared =>
      simp [clear_eq, view, hidle, Activity.isUnguarded] at hunguarded
    | _ => simp [view, hidle, Activity.isUnguarded] at hunguarded

theorem GatedOk.clear {conn : ℕ} (hidle : (state.connections conn).activity = .idle) :
    GatedOk env keyShards (state.put conn ((state.view conn).clear env)) := by
  have hview : (state.view conn).activity = .idle := hidle
  have hcleared : ConnectionView.StepOk env keyShards conn (state.view conn) _ :=
    .cleared conn (hok.connections conn) hview (state.view conn).replies
  rw [clear_eq] at hcleared ⊢
  rw [hview]
  refine hok.put hcleared ?_ nofun
  intro hactive hzero
  simp only [view, hzero] at hactive
  exact absurd (by split <;> rfl) hactive

end

theorem GatedOk.init (store : σ) : GatedOk env keyShards { store := store } where
  gates := GatesOk.start
  counter := ⟨∅, by simp, rfl⟩
  connections := fun _ => connectionOk_empty env keyShards
  guarded := fun hactive => absurd rfl hactive

/-- The connection is between the first and the last command of an `EXEC` that holds the
gate of the shard. -/
def InsideExec (state : ServerState σ Command Object ρ) (conn shard : ℕ) : Prop :=
  ∃ done left held, (state.connections conn).activity = .execRunning done left held ∧
    0 < done ∧ left ≠ [] ∧ shard ∈ held

/-- The step executes no command on a shard that another connection's `EXEC` has gated. -/
def Isolated (keyShards : Command → List ℕ) (state : ServerState σ Command Object ρ)
    (event : ServerEvent Command) : Prop :=
  ∀ conn command, state.executes event = some (conn, command) →
    ∀ other, other ≠ conn → ∀ shard ∈ keyShards command, ¬ state.InsideExec other shard

/-- A command that runs is guarded: by a read gate, or by a write gate of its own `EXEC`,
of each of its shards, unless no transaction is counted at all. -/
theorem GatedOk.executes {conn : ℕ} {command : Command} (hok : GatedOk env keyShards state)
    (hexecutes : state.executes event = some (conn, command)) :
    state.activeTransactions = 0 ∨ (keyShards command ⊆ (state.connections conn).activity.reads) ∨
      (keyShards command ⊆ (state.connections conn).activity.writes) := by
  cases event with
  | advance at_ =>
    have hcovered := (hok.connections at_).covered
    simp only [executes] at hexecutes
    split at hexecutes
    next hactivity =>
      refine .inl (by_contra fun hactive => ?_)
      simpa [hactivity, Activity.isUnguarded] using hok.guarded hactive at_
    next hactivity =>
      cases hexecutes
      rw [hactivity] at hcovered ⊢
      rw [Activity.Covered, append_nil] at hcovered
      exact .inr (.inl hcovered)
    next hactivity =>
      cases hexecutes
      rw [hactivity] at hcovered ⊢
      exact .inr (.inr (hcovered command mem_cons_self))
    next => cases hexecutes
  | _ => cases hexecutes

theorem GatedOk.isolated (hok : GatedOk env keyShards state) : Isolated keyShards state event := by
  intro conn command hexecutes other hother shard hshard hinside
  obtain ⟨done, left, held, hactivity, -, -, hheld⟩ := hinside
  have hwriter := hok.gates.writes_eq other shard (by rw [hactivity]; exact hheld)
  rcases hok.executes hexecutes with hzero | hreads | hwrites
  · have hcounted := (hok.connections other).counted_of_inExec (by rw [hactivity]; rfl)
    exact hok.counter.pos hcounted hzero
  · have hreader := hok.gates.reads_le conn shard
    have hempty := hok.gates.exclusive shard (by simp [hwriter])
    have hpos := count_pos_iff.mpr (hreads hshard)
    simp only [hempty, count_nil] at hreader
    omega
  · have hown := hok.gates.writes_eq conn shard (hwrites hshard)
    rw [hwriter] at hown
    exact hother (Option.some.inj hown)

variable [DecidableEq Object]

theorem GatedOk.advance (conn : ℕ) (hok : GatedOk env keyShards state) :
    GatedOk env keyShards (state.put conn ((state.view conn).advance env conn)) := by
  have hadvance : ConnectionView.AdvanceOk env keyShards conn (state.view conn) _ :=
    advance_ok conn (hok.connections conn)
  refine hok.put hadvance.toStepOk ?_ ?_
  · intro hactive hzero
    have hle := hadvance.active_le
    rw [show (state.view conn).activeTransactions = 0 from hzero] at hle
    exact absurd (Nat.le_zero.mp hle) hactive
  · intro hunguarded
    rw [hadvance.guarded] at hunguarded
    exact absurd hunguarded (by simp)

theorem GatedOk.step (hok : GatedOk env keyShards state)
    (hgated : GatedStep env keyShards state event) :
    GatedOk env keyShards (state.step env event) := by
  cases event with
  | request =>
    simp only [step]
    split
    next hidle => exact hok.request hidle hgated
    next => exact hok
  | advance conn => exact hok.advance conn
  | close =>
    simp only [step]
    split
    next hidle => exact hok.clear hidle
    next => exact hok
  | elapse => exact ⟨hok.gates, hok.counter, hok.connections, hok.guarded⟩

/-- Isolation of `EXEC` over whole runs. -/
theorem exec_isolated (env : TransactionEnv σ Command Object ρ) (keyShards : Command → List ℕ)
    (store : σ) (events : List (ServerEvent Command))
    (hgated : SafeRun (step env) (GatedStep env keyShards) { store := store } events) :
    ∀ front event, front ++ [event] <+: events →
      Isolated keyShards (front.foldl (step env) { store := store }) event := by
  intro front event hfront
  have hrun := hgated.front ((prefix_append front [event]).trans hfront)
  have hok : GatedOk env keyShards _ :=
    SafeRun.invariant (fun _ _ hok hsafe => hok.step hsafe) front _ (GatedOk.init store) hrun
  exact hok.isolated

/-- A transaction that opens and runs before the other connection looks at the counter. -/
theorem exec_isolated_guarded : Isolated (fun _ => [0])
      (([.request 1 (.control .multi []), .request 1 (.command (.set [1] [2])),
          .request 1 (.control .exec []), .advance 1, .advance 1, .advance 1,
          .request 2 (.command (.get [1]))] : List (ServerEvent StringCommand)).foldl
        (step (StringShard.env .shardLocal)) { store := {} })
      (.advance 2) := by
  refine exec_isolated (StringShard.env .shardLocal) (fun _ => [0]) {} _ ?_ _ _ prefix_rfl
  refine ⟨fun _ _ => rfl, List.Subset.refl _, trivial, trivial, trivial, trivial,
    List.Subset.refl _, trivial, trivial⟩

/-- Connection 2 finds the counter at zero; connection 1 opens a transaction, takes the
gate and runs its `SET`; connection 2 then runs its own `SET` of the same key under no
gate, and the `GET` of the transaction answers with it. -/
theorem unguardedSet_inside_exec : ∃ front,
      ¬ Isolated (fun _ => [0])
          (front.foldl (step (StringShard.env .shardLocal)) { store := {} }) (.advance 2) ∧
        (((front ++ [ServerEvent.advance 2, ServerEvent.advance 1]).foldl
          (step (StringShard.env .shardLocal))
          { store := {} }).connections 1).replies.getLast? = some (.reply (some [3])) := by
  refine ⟨[.request 2 (.command (.set [1] [3])), .request 1 (.control .multi []),
    .request 1 (.command (.set [1] [2])), .request 1 (.command (.get [1])),
    .request 1 (.control .exec []), .advance 1, .advance 1, .advance 1, .advance 1], ?_, ?_⟩
  · intro hisolated
    exact hisolated 2 (.set [1] [3]) rfl 1 (by decide) 0 (by simp)
      ⟨1, [.get [1]], [0], rfl, by decide, by simp, by simp⟩
  · decide +kernel

end ServerState
end ShardKv
