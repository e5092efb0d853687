import VpnBot.Warp.EditAtomicity
import VpnBot.Warp.ManualRows

/-!
# Two manual edits at once

`add_manual` and `remove_manual_many` of `src/services/warp_split_feeds.py`, one step for each place where
a call waits, two calls at a time.  Both read the manual rows, decide on them, and write what they have
decided with statements of their own; only the apply that follows holds the lock of the manager.

What the calls are compared with is `alone`, the methods of the service run from beginning to end.  The
endpoint and the networks of the host are the same for all of it; the helper may answer differently each
time.  A statement that raises ends a call that does not return, and has no step here.
-/

namespace VpnBot.Warp

open Py Sys FeedTables

/-! ### The calls -/

inductive ManualEdit
  | addManual (tokens : List Text)
  | removeManualMany (prefixes : List Text)
  deriving DecidableEq

def ManualEdit.toEdit : ManualEdit → Edit
  | .addManual tokens => .addManual tokens
  | .removeManualMany prefixes => .removeManualMany prefixes

def SplitState.rows (split : SplitState) : List Text := split.tables.manualPrefixes

/-- Where an apply waits, with its local variables. -/
inductive ApplyPc
  | sources
  | prefixes (sources : List SplitSource)
  | exclusions (sources : List SplitSource) (stored : Text → List Text)
  | checking (prefixes : List Text) (previous : Option Text)
  | writing (prefixes : List Text) (previous : Option Text)
  | restoring (previous : Option Text) (e : SplitError)
  | ended (result : Except SplitError ApplyOutcome)

/-- How a call ends: it returns with what its apply did, if it came to one, or it raises an error. -/
inductive EditEnd
  | returned (outcome : Option ApplyOutcome)
  | refused (e : SplitError)

/-- Where a call waits, with its local variables. -/
inductive EditPc
  | start
  | adoptDelete (existing : List Text)
  | adoptInsert (existing : List Text)
  | adoptMark
  | probing
  | reading
  | adding (accepted : List Text)
  | deleting (drop add : List Text)
  | inserting (add : List Text)
  | locking
  | applying (pc : ApplyPc)
  | done (result : EditEnd)

structure EditCall where
  edit : ManualEdit
  pc : EditPc

/-- The call holds the lock of the manager. -/
def EditPc.locked : EditPc → Bool
  | .applying _ => true
  | _ => false

/-- The rows that a call has decided to insert for those that it has deleted. -/
def EditPc.pending : EditPc → List Text
  | .inserting add => add
  | _ => []

/-- The service and two calls. -/
structure RaceState where
  split : SplitState
  one : EditCall
  two : EditCall

namespace RaceState

/-- The first call waits at another place. -/
def goto (pc : EditPc) (s : RaceState) : RaceState := { s with one.pc := pc }

/-- The tables are changed. -/
def write (tables : FeedTables) (s : RaceState) : RaceState := { s with split.tables := tables }

/-- The calls change places. -/
def swap (s : RaceState) : RaceState := { s with one := s.two, two := s.one }

/-- The stored manual rows. -/
def rows (s : RaceState) : List Text := s.split.rows

end RaceState

/-- The state that an edit leaves when the service runs it alone, whether it returns or raises. -/
def alone (manager : SplitManager) (host : Host) (edit : ManualEdit) (split : SplitState) : SplitState :=
  (Program.result (edit.toEdit.run manager host) split).2

def EditCall.succeeds (call : EditCall) : Bool :=
  match call.pc with
  | .done (.returned _) => true
  | _ => false

end VpnBot.Warp
