import VpnBot.Db.Transaction

/-!
# Reads on the shared connection

`_before_connection_execute` of `src/db/database.py` for a read, over the moves of `Transaction`: a read
waits for the lock, unless its task owns the transaction or the implicit write, or has the context variable
`_ACTIVE_TRANSACTION_DB` set.  A transaction sets the variable for its task; a task that is spawned gets a
copy, and keeps it when the block is over.

`execute` steps a `SELECT` to its first row, and each fetch steps it further, on the same connection; the
effect is when the call is queued.  The fetch is a method of the cursor and passes no gate.  Here an
uncommitted write is the task that made it, and what counts of a read is over which writes it is made.
-/

namespace VpnBot.Db

/-- The writes of the task carry its name. -/
def signed (t : Task) : Action Task → Action Task
  | .execute statement => .execute { statement with applied := statement.applied.map fun _ => t }
  | a => a

/-- The database, the context variable of each task with the number of the block in which it was set, the
block whose body runs, what the variable is reset to, the number of the next block, the cursors of each
task that have rows left, and the uncommitted writes of other tasks that reads were made over from outside
of the block. -/
structure Reading where
  db : Database Task
  context : Task → Option ℕ
  block : Option ℕ
  outer : Option ℕ
  blocks : ℕ
  started : Task → Bool
  cursors : Task → ℕ
  exposed : List Task

/-- What happens. -/
inductive ReadAction
  /-- A move of a task of the transaction protocol. -/
  | move (t : Task) (a : Action Task)
  /-- A task is spawned by another one, or outside of all. -/
  | spawn (parent : Option Task) (t : Task)
  /-- `execute` of a `SELECT`; whether the cursor has rows left. -/
  | select (t : Task) (more : Bool)
  /-- A fetch from a cursor that has rows left; whether it has some afterwards. -/
  | fetch (t : Task) (more : Bool)

namespace Reading

variable (s : Reading) (t : Task)

/-- The task owns the transaction or the implicit write, or runs inside the block that is open. -/
def inside : Bool :=
  s.db.transactionOwner = some t || s.db.implicitWriteOwner = some t ||
    (s.block.isSome && s.context t = s.block)

/-- The uncommitted writes of other tasks, for a task that is not inside. -/
def foreign : List Task := if s.inside t then [] else s.db.conn.pending.filter (· ≠ t)

/-- `_before_connection_execute` lets a read through. -/
def mayRead : Bool :=
  s.db.transactionOwner = some t || (s.context t).isSome || s.db.implicitWriteOwner = some t || !s.db.lock

/-- The context variable is set once `BEGIN` is done, and reset after `COMMIT` or `ROLLBACK`; a block that
is left by a cancellation does not reset it. -/
def afterMove (a : Action Task) (db : Database Task) : Reading :=
  match a, (s.db.tasks t).pc with
  | .resume _, .awaitBegin true =>
    { s with
      db, block := some s.blocks, outer := s.context t, blocks := s.blocks + 1
      context := Function.update s.context t (some s.blocks) }
  | .resume _, .awaitEnd _ | .cancel, .awaitEnd _ =>
    { s with db, block := none, context := Function.update s.context t s.outer }
  | .leave .cancelled _, .running =>
    if (s.db.tasks t).frames.head? = some true then { s with db, block := none } else { s with db }
  | _, _ => { s with db }

def read (cursors : ℕ) : Reading :=
  { s with exposed := s.exposed ++ s.foreign t, cursors := Function.update s.cursors t cursors }

/-- One action; a task acts once it is started. -/
def step : ReadAction → Option Reading
  | .move t a => if s.started t then (Db.step s.db (t, signed t a)).map (s.afterMove t a) else none
  | .spawn parent t =>
    if s.started t then none
    else some { s with
      started := Function.update s.started t true
      context := Function.update s.context t (parent.bind s.context) }
  | .select t more =>
    match (s.db.tasks t).pc with
    | .running =>
      if s.started t && s.mayRead t then some (s.read t (s.cursors t + more.toNat)) else none
    | _ => none
  | .fetch t more =>
    match (s.db.tasks t).pc, s.cursors t with
    | .running, n + 1 => some (s.read t (n + more.toNat))
    | _, _ => none

/-- Nothing has run. -/
def start (committed : List Task) : Reading where
  db := initial committed
  context := fun _ => none
  block := none
  outer := none
  blocks := 0
  started := fun _ => false
  cursors := fun _ => 0
  exposed := []

end Reading

end VpnBot.Db
