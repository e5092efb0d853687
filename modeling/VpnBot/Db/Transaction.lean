import VpnBot.System.Run

/-!
# The transaction lock of the database

`src/db/database.py`: several asyncio tasks share one SQLite connection.  `Database.transaction()`
holds a lock from `BEGIN` to `COMMIT` or `ROLLBACK`; a write outside of such a block takes the same
lock for its task until that task calls `commit()` or `rollback()`.

`step` is one move of one task, between two points at which it waits.  A call of the connection is
two moves: its effect takes place when it is queued to the thread of the connection, and the task
goes on later, with the result, an exception, or a `CancelledError`.  The pieces of shared state are
those of the source: the lock, the owner and the depth of the explicit transaction, the owner and
the depth of an implicit write, and the SQLite transaction itself.

Reads wait for the lock and change nothing; they are left out.
-/

namespace VpnBot.Db

abbrev Task := ℕ

/-! ### The SQLite connection -/

/-- The connection: whether a transaction is open, its writes, and the writes in the database. -/
structure Connection (W : Type) where
  inTransaction : Bool
  pending : List W
  committed : List W

/-- What a statement is to `sqlite3` in legacy isolation mode. -/
inductive StatementKind
  /-- `INSERT`, `UPDATE`, `DELETE`, `REPLACE`: opens a transaction when there is none. -/
  | dml
  /-- `CREATE`, `DROP`, `ALTER`: takes effect at once when no transaction is open. -/
  | ddl
  /-- `executescript`: commits first, then runs each statement on its own. -/
  | script
  deriving DecidableEq

/-- A write statement, the writes that it made, and whether it succeeded. -/
structure Statement (W : Type) where
  kind : StatementKind
  applied : List W
  ok : Bool

variable {W : Type}

/-- The effect of a statement. -/
def Connection.execute (conn : Connection W) (statement : Statement W) : Connection W :=
  match statement.kind with
  | .dml => ⟨true, conn.pending ++ statement.applied, conn.committed⟩
  | .ddl =>
    if conn.inTransaction then ⟨true, conn.pending ++ statement.applied, conn.committed⟩
    else ⟨false, conn.pending, conn.committed ++ statement.applied⟩
  | .script => ⟨false, [], conn.committed ++ conn.pending ++ statement.applied⟩

/-- `COMMIT` or `ROLLBACK`; one that fails leaves the transaction open. -/
def Connection.finish (conn : Connection W) (commit ok : Bool) : Connection W :=
  if ok then ⟨false, [], if commit then conn.committed ++ conn.pending else conn.committed⟩ else conn

/-! ### Tasks -/

/-- Where a task is: running, waiting for the lock, waiting for the connection, or finished. -/
inductive Pc (W : Type)
  | running
  /-- In `transaction()`, before `acquire()` returns. -/
  | wantTransaction
  | awaitBegin (ok : Bool)
  /-- In the outermost `COMMIT` (`returned`) or `ROLLBACK`. -/
  | awaitEnd (returned : Bool)
  /-- In `_before_connection_execute`, before `acquire()` returns. -/
  | wantWrite (statement : Statement W)
  | awaitExecute (implicit ok : Bool)
  /-- In `_rollback_implicit_write_owner`. -/
  | awaitUndo
  /-- In `commit()` or `rollback()` of the implicit owner. -/
  | awaitImplicitEnd
  /-- In `commit()` or `rollback()` of another task, in `_wait_for_connection_turn`. -/
  | wantTurn (commit : Bool)
  | awaitTurn
  | finished

/-- A task: its place, the `transaction()` blocks it is in (innermost first, `true` for an outermost
one), and what is to be remembered of the outermost block. -/
structure TaskState (W : Type) where
  pc : Pc W
  frames : List Bool
  /-- The database when the block began. -/
  before : List W
  /-- The writes of the block. -/
  writes : List W
  /-- The block has run `executescript`. -/
  scripted : Bool

/-- How a block is left. -/
inductive Outcome
  | returned
  | raised
  | cancelled
  deriving DecidableEq

/-- What there was when an outermost block had been left. -/
structure Ended (W : Type) where
  returned : Bool
  before : List W
  writes : List W
  after : List W
  lock : Bool
  owner : Option Task
  inTransaction : Bool

/-- The shared state and the tasks. -/
structure Database (W : Type) where
  lock : Bool
  transactionOwner : Option Task
  transactionDepth : ℕ
  implicitWriteOwner : Option Task
  implicitWriteDepth : ℕ
  conn : Connection W
  tasks : Task → TaskState W
  ended : List (Ended W)

/-- Before anything has run. -/
def initial (committed : List W) : Database W where
  lock := false
  transactionOwner := none
  transactionDepth := 0
  implicitWriteOwner := none
  implicitWriteDepth := 0
  conn := ⟨false, [], committed⟩
  tasks := fun _ => ⟨.running, [], [], [], false⟩
  ended := []

/-- The move of a task. -/
inductive Action (W : Type)
  /-- `async with transaction()`. -/
  | enter
  /-- The wait for the lock is over; for a transaction, whether `BEGIN` succeeds. -/
  | acquire (ok : Bool)
  /-- The wait for the connection is over; after a failed write, whether its `ROLLBACK` succeeds. -/
  | resume (ok : Bool)
  /-- A `CancelledError` at the point where the task waits. -/
  | cancel
  /-- The body of the innermost block ends; for an outermost one, whether `COMMIT` or `ROLLBACK`
  succeeds. -/
  | leave (outcome : Outcome) (ok : Bool)
  /-- A write statement. -/
  | execute (statement : Statement W)
  /-- `commit()` or `rollback()`, and whether it succeeds. -/
  | endWrite (commit ok : Bool)
  /-- The task ends. -/
  | exit

/-! ### The moves -/

namespace Database

/-- The task gets a new state. -/
def setTask (s : Database W) (t : Task) (task : TaskState W) : Database W :=
  { s with tasks := Function.update s.tasks t task }

/-- The task goes to another place. -/
def goto (s : Database W) (t : Task) (pc : Pc W) : Database W :=
  s.setTask t { s.tasks t with pc }

/-- The start of `transaction()`. -/
def enter (s : Database W) (t : Task) : Database W :=
  if s.transactionOwner = some t then
    { s with transactionDepth := s.transactionDepth + 1 }.setTask t
      { s.tasks t with frames := false :: (s.tasks t).frames }
  else if s.implicitWriteOwner = some t then s
  else s.goto t .wantTransaction

/-- `transaction()` has the lock and queues `BEGIN`. -/
def begin (s : Database W) (t : Task) (ok : Bool) : Database W :=
  let ok := ok && !s.conn.inTransaction
  { s with
    lock := true
    transactionOwner := some t
    transactionDepth := 0
    conn := { s.conn with inTransaction := s.conn.inTransaction || ok } }.goto t (.awaitBegin ok)

/-- After `BEGIN`: the body starts, or the lock is given back. -/
def afterBegin (s : Database W) (t : Task) (ok : Bool) : Database W :=
  if ok then
    { s with transactionDepth := s.transactionDepth + 1 }.setTask t
      ⟨.running, true :: (s.tasks t).frames, s.conn.committed, [], false⟩
  else
    { s with lock := false, transactionOwner := none, transactionDepth := 0 }.goto t .running

/-- The note about a block that has just been left. -/
def endedNow (s : Database W) (t : Task) (returned : Bool) : Ended W where
  returned := returned
  before := (s.tasks t).before
  writes := (s.tasks t).writes
  after := s.conn.committed
  lock := s.lock
  owner := s.transactionOwner
  inTransaction := s.conn.inTransaction

/-- The body of a block ends.  A `CancelledError` is no `Exception`: it passes by both branches. -/
def leave (s : Database W) (t : Task) (outermost : Bool) (frames : List Bool) (outcome : Outcome)
    (ok : Bool) : Database W :=
  match outcome with
  | .cancelled =>
    let s := s.setTask t { s.tasks t with frames }
    if outermost then { s with ended := s.ended ++ [s.endedNow t false] } else s
  | _ =>
    let s := { s with transactionDepth := s.transactionDepth - 1 }
    if outermost then
      { s with conn := s.conn.finish (outcome = Outcome.returned) ok }.setTask t
        { s.tasks t with frames, pc := .awaitEnd (outcome = Outcome.returned) }
    else s.setTask t { s.tasks t with frames }

/-- The `finally` after `COMMIT` or `ROLLBACK`. -/
def release (s : Database W) (t : Task) (returned : Bool) : Database W :=
  let s := { s with lock := false, transactionOwner := none }.goto t .running
  { s with ended := s.ended ++ [s.endedNow t returned] }

/-- A statement is queued for a task that may write; in a block it counts as a write of it. -/
def queue (s : Database W) (t : Task) (statement : Statement W) (implicit : Bool) : Database W :=
  { s with conn := s.conn.execute statement }.setTask t
    { s.tasks t with
      pc := .awaitExecute implicit statement.ok
      writes := (s.tasks t).writes ++ statement.applied
      scripted := (s.tasks t).scripted || statement.kind = StatementKind.script }

/-- `_before_connection_execute` for a write. -/
def execute (s : Database W) (t : Task) (statement : Statement W) : Database W :=
  if s.transactionOwner = some t then s.queue t statement false
  else if s.implicitWriteOwner = some t then
    { s with implicitWriteDepth := s.implicitWriteDepth + 1 }.queue t statement true
  else s.goto t (.wantWrite statement)

/-- The write of a task without a transaction has the lock. -/
def startWrite (s : Database W) (t : Task) (statement : Statement W) : Database W :=
  { s with lock := true, implicitWriteOwner := some t, implicitWriteDepth := 1 }.queue t statement true

/-- After a statement: a failed implicit write is rolled back. -/
def afterExecute (s : Database W) (t : Task) (implicit done ok : Bool) : Database W :=
  if done || !implicit then s.goto t .running
  else { s with conn := s.conn.finish false ok }.goto t .awaitUndo

/-- `_clear_implicit_write_owner`. -/
def clearImplicit (s : Database W) : Database W :=
  if s.implicitWriteOwner.isSome then
    { s with implicitWriteOwner := none, implicitWriteDepth := 0, lock := false }
  else s

/-- `commit()` and `rollback()`. -/
def endWrite (s : Database W) (t : Task) (commit ok : Bool) : Database W :=
  if s.transactionOwner = some t ∧ 0 < s.transactionDepth then s
  else if s.implicitWriteOwner = some t then
    { s with conn := s.conn.finish commit ok }.goto t .awaitImplicitEnd
  else s.goto t (.wantTurn commit)

/-- `commit()` or `rollback()` of a task that owns nothing, once the lock is free. -/
def takeTurn (s : Database W) (t : Task) (commit : Bool) : Database W :=
  { s with conn := s.conn.finish commit true }.goto t .awaitTurn

end Database

def whenFree (s : Database W) (s' : Database W) : Option (Database W) :=
  if s.lock then none else some s'

/-- One move of one task. -/
def step (s : Database W) (move : Task × Action W) : Option (Database W) :=
  let t := move.1
  match move.2, (s.tasks t).pc with
  | .enter, .running => some (s.enter t)
  | .execute statement, .running => some (s.execute t statement)
  | .endWrite commit ok, .running => some (s.endWrite t commit ok)
  | .leave outcome ok, .running =>
    match (s.tasks t).frames with
    | [] => none
    | outermost :: frames => some (s.leave t outermost frames outcome ok)
  | .exit, .running => if (s.tasks t).frames = [] then some (s.goto t .finished) else none
  | .acquire ok, .wantTransaction => whenFree s (s.begin t ok)
  | .acquire _, .wantWrite statement => whenFree s (s.startWrite t statement)
  | .acquire _, .wantTurn commit => whenFree s (s.takeTurn t commit)
  | .cancel, .wantTransaction => some (s.goto t .running)
  | .cancel, .wantWrite _ => some (s.goto t .running)
  | .cancel, .wantTurn _ => some (s.goto t .running)
  | .resume _, .awaitBegin ok => some (s.afterBegin t ok)
  | .cancel, .awaitBegin _ => some (s.goto t .running)
  | .resume _, .awaitEnd returned => some (s.release t returned)
  | .cancel, .awaitEnd returned => some (s.release t returned)
  | .resume ok, .awaitExecute implicit done => some (s.afterExecute t implicit done ok)
  | .cancel, .awaitExecute _ _ => some (s.goto t .running)
  | .resume _, .awaitUndo => some (s.clearImplicit.goto t .running)
  | .cancel, .awaitUndo => some (s.clearImplicit.goto t .running)
  | .resume _, .awaitImplicitEnd => some (s.clearImplicit.goto t .running)
  | .cancel, .awaitImplicitEnd => some (s.clearImplicit.goto t .running)
  | .resume _, .awaitTurn => some (s.goto t .running)
  | .cancel, .awaitTurn => some (s.goto t .running)
  | _, _ => none

end VpnBot.Db
