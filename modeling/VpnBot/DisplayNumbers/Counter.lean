import Mathlib.Data.List.Basic
import Mathlib.Logic.Function.Basic
import Mathlib.Data.Nat.Basic
import Mathlib.Order.Lattice
import VpnBot.System.Run

/-!
# The counter of the display numbers

`reserve_key_number` of `src/repositories/vpn_keys.py` takes the number of a bundle from the AUTOINCREMENT
counter of `vpn_keys`, in three statements; the `INSERT` of a key takes the id of the row from the same
counter.  What holds the statements of one task together is the lock of `src/db/database.py`: the first
write of a task, or the begin of a transaction, takes it until the end.

`step` is one statement of one task; between two statements any other task may go on.  A statement may
raise, and a task may be cancelled after each of them.  Of SQLite: `sqlite_sequence` may hold several rows
of one name, and AUTOINCREMENT and the `SELECT` of `reserve_key_number` use the first one.
-/

namespace VpnBot.DisplayNumbers

abbrev Task := ℕ

/-! ### The tables -/

/-- The rows of `sqlite_sequence` that are named `vpn_keys`, in their order, and the ids of the keys; the
first row is not below an id. -/
structure CounterTables where
  sequence : List ℕ
  keys : List ℕ
  counted : ∀ id ∈ keys, id ≤ sequence.headD 0

/-- `IFNULL(MAX(id), 0)`. -/
def maxId (keys : List ℕ) : ℕ := keys.foldr max 0

theorem le_maxId {keys : List ℕ} {id : ℕ} (h : id ∈ keys) : id ≤ maxId keys := by
  induction keys with
  | nil => cases h
  | cons k keys ih =>
    rcases List.mem_cons.1 h with rfl | h
    · exact le_max_left _ _
    · exact (ih h).trans (le_max_right _ _)

namespace CounterTables

/-- The number in the first row. -/
def counter (t : CounterTables) : ℕ := t.sequence.headD 0

/-- `INSERT OR IGNORE INTO sqlite_sequence`: no unique key, so the row is always added. -/
def seed (t : CounterTables) : CounterTables where
  sequence := t.sequence ++ [maxId t.keys]
  keys := t.keys
  counted := by
    intro id hid
    cases hseq : t.sequence with
    | nil => exact le_maxId hid
    | cons n rest =>
      have hle := t.counted id hid
      rw [hseq] at hle
      exact hle

/-- `UPDATE sqlite_sequence SET seq = seq + 1`: all rows of the name. -/
def bump (t : CounterTables) : CounterTables where
  sequence := t.sequence.map (· + 1)
  keys := t.keys
  counted := by
    intro id hid
    have hle := t.counted id hid
    cases hseq : t.sequence with
    | nil =>
      rw [hseq] at hle
      exact hle
    | cons n rest =>
      rw [hseq] at hle
      exact hle.trans (Nat.le_succ n)

/-- The id that AUTOINCREMENT gives to the next row. -/
def nextId (t : CounterTables) : ℕ := max t.counter (maxId t.keys) + 1

/-- `INSERT INTO vpn_keys`: the id of the row goes to the first row of the counter. -/
def insertKey (t : CounterTables) : CounterTables where
  sequence := t.nextId :: t.sequence.tail
  keys := t.keys ++ [t.nextId]
  counted := by
    intro id hid
    show id ≤ t.nextId
    rcases List.mem_append.1 hid with hold | hnew
    · exact (le_maxId hold).trans ((le_max_right _ _).trans (Nat.le_succ _))
    · exact (List.mem_singleton.1 hnew).le

/-- `DELETE FROM vpn_keys WHERE id = ?`. -/
def deleteKey (id : ℕ) (t : CounterTables) : CounterTables where
  sequence := t.sequence
  keys := t.keys.filter (· ≠ id)
  counted := fun k hk => t.counted k (List.mem_of_mem_filter hk)

end CounterTables

/-! ### The tasks -/

/-- Where a task is in `reserve_key_number` and `KeyBundleRepository.create`. -/
inductive Pc
  | running
  /-- The counter row is there. -/
  | seeded
  /-- The counter has been increased. -/
  | bumped
  /-- The number has been returned. -/
  | numbered (n : ℕ)
  deriving DecidableEq

/-- A statement of a task, or what happens to it. -/
inductive Call
  /-- `async with transaction()`, and whether `BEGIN` succeeds. -/
  | begin (ok : Bool)
  /-- The outermost block ends with `COMMIT` or `ROLLBACK`, and whether that succeeds. -/
  | leave (commit ok : Bool)
  | seed
  | bump
  | read
  | insertBundle
  | insertKey
  | deleteKey (id : ℕ)
  /-- A write that concerns neither table. -/
  | otherWrite
  /-- `commit()` or `rollback()`, and whether it succeeds. -/
  | endWrite (commit ok : Bool)
  /-- The statement of the place raises; whether the `ROLLBACK` of the implicit write succeeds. -/
  | fail (ok : Bool)
  /-- A `CancelledError`; nothing is rolled back. -/
  | cancel
  deriving DecidableEq

/-- The lock with its owners, the tables as the connection and as the file have them, the places of the
tasks, and the numbers that were handed out: those that are committed, those of the open transaction, and
all that were ever handed out. -/
structure NumberSystem where
  lock : Bool
  transactionOwner : Option Task
  implicitWriteOwner : Option Task
  live : CounterTables
  saved : CounterTables
  pc : Task → Pc
  committed : List ℕ
  pending : List ℕ
  returned : List ℕ

/-- The bot has started. -/
def initial (tables : CounterTables) : NumberSystem :=
  ⟨false, none, none, tables, tables, fun _ => .running, [], [], []⟩

namespace NumberSystem

variable (s : NumberSystem) (t : Task)

/-- The task goes to a place. -/
def goto (pc : Pc) : NumberSystem := { s with pc := Function.update s.pc t pc }

/-- The task owns the transaction or the implicit write. -/
def owns : Bool := s.transactionOwner = some t || s.implicitWriteOwner = some t

/-- `_before_connection_execute` for a write: the lock is the task's, or has to be free. -/
def takeSlot : Option NumberSystem :=
  if s.owns t then some s
  else if s.lock then none
  else some { s with lock := true, implicitWriteOwner := some t }

/-- A statement takes effect on the connection. -/
def write (f : CounterTables → CounterTables) : NumberSystem := { s with live := f s.live }

/-- A number is handed out. -/
def hand (n : ℕ) : NumberSystem :=
  { s with pending := s.pending ++ [n], returned := s.returned ++ [n] }

/-- `COMMIT` or `ROLLBACK` on the connection; one that fails leaves the transaction open. -/
def finish (commit ok : Bool) : NumberSystem :=
  if !ok then s
  else if commit then { s with saved := s.live, committed := s.committed ++ s.pending, pending := [] }
  else { s with live := s.saved, pending := [] }

/-- `_clear_implicit_write_owner` by the owner. -/
def clearImplicit : NumberSystem := { s with implicitWriteOwner := none, lock := false }

/-- `transaction()`; a nested one joins, and one after an implicit write raises. -/
def beginTransaction (ok : Bool) : Option NumberSystem :=
  if s.owns t then some s
  else if s.lock then none
  else if ok then some { s with lock := true, transactionOwner := some t }
  else some s

/-- The outermost block ends. -/
def leaveTransaction (commit ok : Bool) : Option NumberSystem :=
  if s.transactionOwner = some t then
    some { s.finish commit ok with lock := false, transactionOwner := none }
  else none

/-- `commit()` and `rollback()`: nothing in a transaction, and the turn of the connection for a task that
owns nothing. -/
def endWrite (commit ok : Bool) : Option NumberSystem :=
  if s.transactionOwner = some t then some s
  else if s.implicitWriteOwner = some t then some (s.finish commit ok).clearImplicit
  else if s.lock then none
  else some (s.finish commit ok)

/-- A statement has raised: an implicit write is rolled back. -/
def failed (ok : Bool) : NumberSystem :=
  if s.implicitWriteOwner = some t then (s.finish false ok).clearImplicit else s

/-- `SELECT seq FROM sqlite_sequence`; without a row `reserve_key_number` raises. -/
def read : NumberSystem :=
  match s.live.sequence with
  | [] => s.goto t .running
  | n :: _ => (s.hand n).goto t (.numbered n)

/-- The process is started again: what was not committed is gone. -/
def restart : NumberSystem :=
  { s with
    lock := false, transactionOwner := none, implicitWriteOwner := none
    live := s.saved, pc := fun _ => .running, pending := [] }

/-- One statement of one task. -/
def call (c : Call) : Option NumberSystem :=
  match c, s.pc t with
  | .begin ok, .running => s.beginTransaction t ok
  | .leave commit ok, .running => s.leaveTransaction t commit ok
  | .seed, .running => (s.takeSlot t).map fun s => (s.write .seed).goto t .seeded
  | .bump, .seeded => (s.takeSlot t).map fun s => (s.write .bump).goto t .bumped
  | .read, .bumped => some (s.read t)
  | .insertBundle, .numbered _ => (s.takeSlot t).map fun s => s.goto t .running
  | .insertKey, .running => (s.takeSlot t).map fun s => (s.write .insertKey).hand s.live.nextId
  | .deleteKey id, .running => (s.takeSlot t).map fun s => s.write (.deleteKey id)
  | .otherWrite, .running => s.takeSlot t
  | .endWrite commit ok, .running => s.endWrite t commit ok
  | .fail _, .bumped => some (s.goto t .running)
  | .fail ok, _ => (s.takeSlot t).map fun s => (s.failed t ok).goto t .running
  | .cancel, _ => some (s.goto t .running)
  | _, _ => none

end NumberSystem

/-- What happens: a statement of a task, or a start of the process. -/
inductive Action
  | call (t : Task) (c : Call)
  | restart
  deriving DecidableEq

/-- One action. -/
def step (s : NumberSystem) : Action → Option NumberSystem
  | .call t c => s.call t c
  | .restart => some s.restart

/-- The actions that may take back what has not been committed. -/
def Action.rollsBack : Action → Bool
  | .restart => true
  | .call _ (.leave commit _) | .call _ (.endWrite commit _) => !commit
  | .call _ (.fail _) => true
  | .call _ _ => false

end VpnBot.DisplayNumbers
