import ShardKv.Foundations.Bytes
import ShardKv.Foundations.History

/-!
# Transactions and the gates of the shards

`server/transactions.rs` with the request paths of `direct_protocol/request.rs`
that consult it. A connection handles one request at a time; what it does for a
request is cut at its accesses to shared state: the load of the transaction
counter, each gate it takes or drops, each command it executes, each key it
fingerprints. The steps of different connections interleave freely.
-/
namespace ShardKv

/-- `config::TransactionMode` without `Disabled`, which gives no coordinator. -/
inductive TransactionMode where
  | shardLocal
  | coordinatedCrossShard
  deriving DecidableEq, Repr

inductive RespTransactionCommand where
  | watch
  | unwatch
  | multi
  | discard
  | exec
  deriving DecidableEq, Repr

inductive WatchedSnapshot (Object : Type) where
  | missing
  | string (value : Bytes)
  | object (value : Object)
  deriving DecidableEq, Repr

structure WatchedKey (Object : Type) where
  key : Bytes
  snapshot : WatchedSnapshot Object
  deriving DecidableEq, Repr

/-- What transactions use of the rest of the server. -/
structure TransactionEnv (σ Command Object ρ : Type) where
  /-- The coordinator's mode; `none` when transactions are disabled. -/
  mode : Option TransactionMode
  getValueBytes : σ → Bytes → Option Bytes
  cloneObjectValue : σ → Bytes → Option Object
  execute : Command → σ → σ × ρ
  commandShards : Command → List ℕ
  /-- `fast_request_shards`, and the shards `read_guard_for_scnp_key_hash` picks. -/
  fastRequestShards : Command → List ℕ
  /-- The passing of time. -/
  elapse : ℕ → σ → σ

/-- A reader-writer lock with the connections that hold it. -/
structure Gate where
  readers : List ℕ := []
  writer : Option ℕ := none
  deriving DecidableEq, Repr

structure TransactionState (Command Object : Type) where
  queued : List Command := []
  dirty : Bool := false
  active : Bool := false
  countedActive : Bool := false
  watched : List (WatchedKey Object) := []

/-- Where a connection is within the request it handles. -/
inductive Activity (Command Object : Type) where
  | idle
  /-- The counter was zero, or was not asked for: the command runs under no gate. -/
  | unguarded (command : Command)
  | acquiring (command : Command) (held left : List ℕ)
  | releasing (held : List ℕ)
  | watching (left : List Bytes)
  | validating (left : List (WatchedKey Object))
  | execAcquiring (commands : List Command) (held left : List ℕ)
  | execRunning (done : ℕ) (left : List Command) (held : List ℕ)
  | execReleasing (held : List ℕ)

/-- What a connection writes; `reply` is the answer of an executed command. -/
inductive TransactionReply (ρ : Type) where
  | simpleString (text : String)
  | error (text : String)
  | nullArray
  | arrayHeader (len : ℕ)
  | reply (answer : ρ)
  deriving DecidableEq, Repr

/-- What a step of one connection sees and changes. -/
structure ConnectionView (σ Command Object ρ : Type) where
  store : σ
  gates : ℕ → Gate
  activeTransactions : ℕ
  transaction : TransactionState Command Object
  activity : Activity Command Object
  replies : List (TransactionReply ρ)

/-- A request as the dispatcher sorts it: a transaction command with its arguments, a
command by name, a typed native command, parts that are no command, and a command on a
direct shard port that `try_execute_owned_shard` takes. -/
inductive TransactionRequest (Command : Type) where
  | control (command : RespTransactionCommand) (args : List Bytes)
  | command (command : Command)
  | typed (command : Command)
  | invalid (error : String)
  | direct (command : Command)

def crossslotError : String := "CROSSSLOT Keys in request don't hash to the same shard"

def wrongArity (command : String) : String :=
  "ERR wrong number of arguments for '" ++ command ++ "' command"

variable {σ Command Object ρ : Type}

def Gate.read (gate : Gate) (conn : ℕ) : Gate := { gate with readers := conn :: gate.readers }

def Gate.unread (gate : Gate) (conn : ℕ) : Gate := { gate with readers := gate.readers.erase conn }

namespace TransactionEnv

variable (env : TransactionEnv σ Command Object ρ)

/-- `WatchedSnapshot::capture`. -/
def capture (store : σ) (key : Bytes) : WatchedSnapshot Object :=
  match env.getValueBytes store key with
  | some value => .string value
  | none =>
    match env.cloneObjectValue store key with
    | some value => .object value
    | none => .missing

def transactionShards (commands : List Command) : List ℕ :=
  ((commands.flatMap env.commandShards).dedup).insertionSort (· ≤ ·)

end TransactionEnv

/-- The update of `watched` for one captured key. -/
def upsertWatched (watched : List (WatchedKey Object)) (entry : WatchedKey Object) :
    List (WatchedKey Object) :=
  match watched with
  | [] => [entry]
  | first :: rest =>
    if first.key = entry.key then entry :: rest else first :: upsertWatched rest entry

namespace ConnectionView

variable (env : TransactionEnv σ Command Object ρ) (view : ConnectionView σ Command Object ρ)
  (args : List Bytes)

def write (reply : TransactionReply ρ) : ConnectionView σ Command Object ρ :=
  { view with replies := view.replies ++ [reply] }

def finishCountedTransaction : ConnectionView σ Command Object ρ :=
  if view.transaction.countedActive then
    { view with
      activeTransactions :=
        if env.mode.isSome then view.activeTransactions - 1 else view.activeTransactions
      transaction := { view.transaction with countedActive := false } }
  else view

theorem finishCountedTransaction_eq : view.finishCountedTransaction env = { view with
        activeTransactions :=
          if view.transaction.countedActive ∧ env.mode.isSome then view.activeTransactions - 1
          else view.activeTransactions
        transaction := { view.transaction with countedActive := false } } := by
  obtain ⟨store, gates, active, ⟨queued, dirty, open_, counted, watched⟩, activity, replies⟩ := view
  cases counted <;> simp [finishCountedTransaction]

def clear : ConnectionView σ Command Object ρ :=
  let view := view.finishCountedTransaction env
  { view with
    transaction :=
      { view.transaction with queued := [], dirty := false, active := false, watched := [] } }

theorem clear_eq : view.clear env = { view with
        activeTransactions :=
          if view.transaction.countedActive ∧ env.mode.isSome then view.activeTransactions - 1
          else view.activeTransactions
        transaction := {} } := by
  simp [clear, finishCountedTransaction_eq]

def multi : ConnectionView σ Command Object ρ :=
  if env.mode.isNone then view.write (.error "ERR transactions are disabled")
  else if args ≠ [] then view.write (.error (wrongArity "multi"))
  else if view.transaction.active then view.write (.error "ERR MULTI calls can not be nested")
  else
    write
      { view with
        activeTransactions :=
          if view.transaction.countedActive then view.activeTransactions
          else view.activeTransactions + 1
        transaction := { view.transaction with
            active := true, dirty := false, countedActive := true, queued := [] } }
      (.simpleString "OK")

def discard : ConnectionView σ Command Object ρ :=
  if args ≠ [] then view.write (.error (wrongArity "discard"))
  else if !view.transaction.active then view.write (.error "ERR DISCARD without MULTI")
  else (view.clear env).write (.simpleString "OK")

/-- `exec` up to the first shared access, the check of the watched keys. -/
def exec : ConnectionView σ Command Object ρ :=
  if args ≠ [] then view.write (.error (wrongArity "exec"))
  else if !view.transaction.active then view.write (.error "ERR EXEC without MULTI")
  else if view.transaction.dirty then
    (view.clear env).write (.error "EXECABORT Transaction discarded because of previous errors.")
  else { view with activity := .validating view.transaction.watched }

def watch : ConnectionView σ Command Object ρ :=
  if env.mode.isNone then view.write (.error "ERR transactions are disabled")
  else if args = [] then view.write (.error (wrongArity "watch"))
  else if view.transaction.active then
    view.write (.error "ERR WATCH inside MULTI is not allowed")
  else { view with activity := .watching args }

def unwatch : ConnectionView σ Command Object ρ :=
  if env.mode.isNone then view.write (.error "ERR transactions are disabled")
  else if args = [] then
    write { view with transaction := { view.transaction with watched := [] } } (.simpleString "OK")
  else view.write (.error (wrongArity "unwatch"))

def control (command : RespTransactionCommand) (args : List Bytes) :
    ConnectionView σ Command Object ρ :=
  match command with
  | .watch => view.watch env args
  | .unwatch => view.unwatch env args
  | .multi => view.multi env args
  | .discard => view.discard env args
  | .exec => view.exec env args

def queueCommand (command : Command) : ConnectionView σ Command Object ρ := write
    { view with
      transaction := { view.transaction with queued := view.transaction.queued ++ [command] } }
    (.simpleString "QUEUED")

/-- `mark_dirty` and the branch of `queue_command` for parts that are no command. -/
def refuse (error : String) : ConnectionView σ Command Object ρ := write
    { view with
      transaction :=
        { view.transaction with dirty := view.transaction.dirty || view.transaction.active } }
    (.error error)

/-- The `read_guard_for_*` functions up to their first gate: the load of the counter
decides whether the command takes the gates of its shards or none. -/
def readGuard (command : Command) (shards : List ℕ) : ConnectionView σ Command Object ρ :=
  if env.mode.isSome ∧ view.activeTransactions ≠ 0 then
    { view with activity := .acquiring command [] shards }
  else { view with activity := .unguarded command }

variable (request : TransactionRequest Command)

/-- A request that a connection at rest begins to handle. -/
def start : ConnectionView σ Command Object ρ :=
  match request with
  | .control command args => view.control env command args
  | .command command =>
    if view.transaction.active then view.queueCommand command
    else view.readGuard env command (env.commandShards command)
  | .typed command =>
    if view.transaction.active then
      view.refuse "ERR typed SCNP commands are not supported inside MULTI; use command-name frames"
    else view.readGuard env command (env.fastRequestShards command)
  | .invalid error => view.refuse ("ERR " ++ error)
  | .direct command =>
    if view.transaction.active then
      view.write (.error "ERR transactions are not supported on direct shard RESP ports")
    else { view with activity := .unguarded command }

/-- What a request can do at once. -/
inductive Started (request : TransactionRequest Command) : ConnectionView σ Command Object ρ → Prop
  | answered (replies) : Started request { view with replies := replies }
  | cleared (replies) (hactive : view.transaction.active = true) :
      Started request { view.clear env with replies := replies }
  | opened (replies) (args) (hrequest : request = .control .multi args)
      (hmode : env.mode.isSome) (hclosed : view.transaction.active = false) :
      Started request
        { view with
          activeTransactions :=
            if view.transaction.countedActive then view.activeTransactions
            else view.activeTransactions + 1
          transaction := { view.transaction with
              active := true, dirty := false, countedActive := true, queued := [] }
          replies := replies }
  | unwatched (replies) : Started request
        { view with transaction := { view.transaction with watched := [] }, replies := replies }
  | queued (replies) (command) (hrequest : request = .command command) : Started request
        { view with
          transaction := { view.transaction with queued := view.transaction.queued ++ [command] }
          replies := replies }
  | dirtied (replies) (dirty) : Started request
        { view with transaction := { view.transaction with dirty := dirty }, replies := replies }
  | validating (hactive : view.transaction.active = true) :
      Started request { view with activity := .validating view.transaction.watched }
  | watching (keys) : Started request { view with activity := .watching keys }
  | guarded (command shards)
      (hrequest : request = .command command ∧ shards = env.commandShards command ∨
        request = .typed command ∧ shards = env.fastRequestShards command) :
      Started request { view with activity := .acquiring command [] shards }
  | unguarded (command)
      (hrequest : env.mode = none ∨ view.activeTransactions = 0 ∨ request = .direct command) :
      Started request { view with activity := .unguarded command }

theorem control_started (command : RespTransactionCommand) (args : List Bytes) :
    Started env view (.control command args) (view.control env command args) := by
  cases command with
  | watch =>
    unfold control watch
    split_ifs
    · exact .answered _
    · exact .answered _
    · exact .answered _
    · exact .watching _
  | unwatch =>
    unfold control unwatch
    split_ifs
    · exact .answered _
    · exact .unwatched _
    · exact .answered _
  | multi =>
    unfold control multi
    split_ifs with hmode hargs hactive hcounted
    · exact .answered _
    · exact .answered _
    · exact .answered _
    all_goals
      have hopened : Started env view (.control .multi args) _ :=
        .opened (view.replies ++ [.simpleString "OK"]) args rfl
          (by simpa [Option.isSome_iff_ne_none] using hmode) (by simpa using hactive)
      simpa [hcounted, write] using hopened
  | discard =>
    unfold control discard
    split_ifs with hargs hactive
    · exact .answered _
    · exact .answered _
    · exact .cleared _ (by simpa using hactive)
  | exec =>
    unfold control exec
    split_ifs with hargs hactive hdirty
    · exact .answered _
    · exact .answered _
    · exact .cleared _ (by simpa using hactive)
    · exact .validating (by simpa using hactive)

theorem readGuard_started {request : TransactionRequest Command} {command : Command}
    {shards : List ℕ}
    (hrequest : request = .command command ∧ shards = env.commandShards command ∨
      request = .typed command ∧ shards = env.fastRequestShards command) :
    Started env view request (view.readGuard env command shards) := by
  unfold readGuard
  split
  · exact .guarded command shards hrequest
  · rename_i hunasked
    rw [not_and_or, Option.not_isSome_iff_eq_none, ne_eq, not_not] at hunasked
    exact .unguarded command (hunasked.imp_right .inl)

theorem start_started :
    Started env view request (view.start env request) := by
  cases request with
  | control command args => exact control_started env view command args
  | command command =>
    rw [start]
    split
    · exact .queued _ command rfl
    · exact readGuard_started env view (.inl ⟨rfl, rfl⟩)
  | typed command =>
    rw [start]
    split
    · exact .dirtied _ _
    · exact readGuard_started env view (.inr ⟨rfl, rfl⟩)
  | invalid error => exact .dirtied _ _
  | direct command =>
    rw [start]
    split
    · exact .answered _
    · exact .unguarded command (.inr (.inr rfl))

/-- One command against the store, with its answer. -/
def execute (command : Command) : ConnectionView σ Command Object ρ :=
  write { view with store := (env.execute command view.store).1 }
    (.reply (env.execute command view.store).2)

/-- The rest of `exec` once no watched key has changed: the queue is taken, the watches
are dropped and the coordinator begins with the gates. -/
def enterExec : ConnectionView σ Command Object ρ :=
  match env.mode with
  | none => { view.clear env with activity := .idle }.write (.error "ERR transactions are disabled")
  | some mode =>
    let commands := view.transaction.queued
    let shards := env.transactionShards commands
    let view := { view with
        transaction := { view.transaction with queued := [], active := false, watched := [] } }
    if mode = .shardLocal ∧ shards.length > 1 then
      write { view with activity := .execReleasing [] } (.error crossslotError)
    else { view with activity := .execAcquiring commands [] shards }

/-- The next shared access of the request in hand. A gate that another connection holds
against it leaves the connection waiting. -/
def advance [DecidableEq Object] (conn : ℕ) : ConnectionView σ Command Object ρ :=
  match view.activity with
  | .idle => view
  | .unguarded command => { view.execute env command with activity := .idle }
  | .acquiring command held (shard :: left) =>
    if (view.gates shard).writer.isSome then view
    else
      { view with
        gates := Function.update view.gates shard ((view.gates shard).read conn)
        activity := .acquiring command (held ++ [shard]) left }
  | .acquiring command held [] => { view.execute env command with activity := .releasing held }
  | .releasing (shard :: held) =>
    { view with
      gates := Function.update view.gates shard ((view.gates shard).unread conn)
      activity := .releasing held }
  | .releasing [] => { view with activity := .idle }
  | .watching (key :: left) =>
    { view with
      transaction := { view.transaction with
          watched := upsertWatched view.transaction.watched ⟨key, env.capture view.store key⟩ }
      activity := .watching left }
  | .watching [] => write { view with activity := .idle } (.simpleString "OK")
  | .validating (watched :: left) =>
    if env.capture view.store watched.key = watched.snapshot then
      { view with activity := .validating left }
    else { view.clear env with activity := .idle }.write .nullArray
  | .validating [] => view.enterExec env
  | .execAcquiring commands held (shard :: left) =>
    if (view.gates shard).writer.isSome ∨ (view.gates shard).readers ≠ [] then view
    else
      { view with
        gates := Function.update view.gates shard { view.gates shard with writer := some conn }
        activity := .execAcquiring commands (held ++ [shard]) left }
  | .execAcquiring commands held [] =>
    write { view with activity := .execRunning 0 commands held } (.arrayHeader commands.length)
  | .execRunning done (command :: left) held =>
    { view.execute env command with activity := .execRunning (done + 1) left held }
  | .execRunning _ [] held => { view with activity := .execReleasing held }
  | .execReleasing (shard :: held) =>
    { view with
      gates := Function.update view.gates shard { view.gates shard with writer := none }
      activity := .execReleasing held }
  | .execReleasing [] => { view.finishCountedTransaction env with activity := .idle }

end ConnectionView

structure Connection (Command Object ρ : Type) where
  transaction : TransactionState Command Object := {}
  activity : Activity Command Object := .idle
  replies : List (TransactionReply ρ) := []

structure ServerState (σ Command Object ρ : Type) where
  store : σ
  gates : ℕ → Gate := fun _ => {}
  activeTransactions : ℕ := 0
  connections : ℕ → Connection Command Object ρ := fun _ => {}

inductive ServerEvent (Command : Type) where
  | request (conn : ℕ) (request : TransactionRequest Command)
  | advance (conn : ℕ)
  | close (conn : ℕ)
  | elapse (millis : ℕ)

namespace ServerState

variable (state : ServerState σ Command Object ρ)

def view (conn : ℕ) : ConnectionView σ Command Object ρ where
  store := state.store
  gates := state.gates
  activeTransactions := state.activeTransactions
  transaction := (state.connections conn).transaction
  activity := (state.connections conn).activity
  replies := (state.connections conn).replies

def put (conn : ℕ) (view : ConnectionView σ Command Object ρ) : ServerState σ Command Object ρ where
  store := view.store
  gates := view.gates
  activeTransactions := view.activeTransactions
  connections :=
    Function.update state.connections conn ⟨view.transaction, view.activity, view.replies⟩

/-- One step of the server. A connection reads its next request, or closes, only when it
is done with the one before. -/
def step [DecidableEq Object] (env : TransactionEnv σ Command Object ρ)
    (state : ServerState σ Command Object ρ) :
    ServerEvent Command → ServerState σ Command Object ρ
  | .request conn request =>
    match (state.connections conn).activity with
    | .idle => state.put conn ((state.view conn).start env request)
    | _ => state
  | .advance conn => state.put conn ((state.view conn).advance env conn)
  | .close conn =>
    match (state.connections conn).activity with
    | .idle => state.put conn ((state.view conn).clear env)
    | _ => state
  | .elapse millis => { state with store := env.elapse millis state.store }

/-- The connection and the command that a step executes. -/
def executes : ServerEvent Command → Option (ℕ × Command)
  | .advance conn =>
    match (state.connections conn).activity with
    | .unguarded command => some (conn, command)
    | .acquiring command _ [] => some (conn, command)
    | .execRunning _ (command :: _) _ => some (conn, command)
    | _ => none
  | _ => none

end ServerState
end ShardKv
