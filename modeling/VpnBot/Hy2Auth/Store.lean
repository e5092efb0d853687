import VpnBot.Keys.VpnKey
import VpnBot.Python.Json
import VpnBot.System.Run

/-!
# The key store of the Hysteria2 authentication

`ReadOnlyKeyStore` of `src/hy2_auth/store.py` with the database file that it reads.  The bot changes the
file at the path, and an operator may rename another file over it; between any two system calls of the
store anything of this may happen, so each system call is one action.  A file is named by its inode, which
the system gives to another file only when nobody has it open.

A statement of the read-only connection reads one snapshot, so the query is one action.  Not modelled: the
logging, and the counter of the failures.
-/

namespace VpnBot.Hy2Auth

open Py Sys

/-! ### The rows -/

/-- What the store reads of a row of `vpn_keys`; `payload` is what `json.loads` makes of the payload, and
`none` when it raises. -/
structure KeyRow where
  keyType : VpnKeyType
  status : VpnKeyStatus
  emailLabel : Option Text
  payload : Option Json

/-- The label and the secret of an active Hysteria2 key, when the row has both. -/
def KeyRow.credential (row : KeyRow) : Option (Text × Text) :=
  if row.keyType = .hysteria2 ∧ row.status = .active then
    match row.emailLabel, row.payload.bind fun data => data.field? "secret".toList with
    | some (c :: label), some (.str (d :: secret)) => some (c :: label, d :: secret)
    | _, _ => none
  else none

/-- `fetch_active_secrets`, of the rows that the query has returned. -/
def activeSecrets (rows : List KeyRow) : List (Text × Text) := rows.filterMap KeyRow.credential

/-- The loop of `match`. -/
def matchSecret (auth : Text) (rows : List KeyRow) : Option Text :=
  ((activeSecrets rows).find? fun entry => entry.2 = auth).map Prod.fst

/-- The file holds an active key with the label and exactly that secret. -/
def Holds (rows : List KeyRow) (label auth : Text) : Prop :=
  ∃ row ∈ rows, row.credential = some (label, auth)

/-! ### The state -/

/-- A call of `match`, with what the file at the path has held since it started. -/
structure Call where
  auth : Text
  seen : List (List KeyRow)

/-- A call of `match` that has returned. -/
structure Answer where
  auth : Text
  result : Option Text
  seen : List (List KeyRow)

/-- Where the task is that opens or reads the database: before the `stat`, before it opens the file, with
the file open and its identity not yet recorded, and before the query. -/
inductive Stage
  | stat
  | opening
  | opened (file : ℕ)
  | ready
  deriving DecidableEq

/-- The file at the path, the contents of all files, the fields of the store, and the calls: those that
wait for the lock, and the task that holds it, which is a call or `connect`. -/
structure AuthStore where
  path : ℕ
  contents : ℕ → List KeyRow
  conn : Option ℕ
  fileId : Option ℕ
  waiting : List Call
  holder : Option (Stage × Option Call)
  answers : List Answer

inductive Action
  /-- The bot changes the keys in the file at the path. -/
  | write (rows : List KeyRow)
  /-- Another file is renamed over the path. -/
  | replace (file : ℕ) (rows : List KeyRow)
  | begin (auth : Text)
  | connect
  /-- A call that waits gets the lock. -/
  | enter (i : ℕ)
  /-- `_reopen_if_replaced` looks at the file at the path. -/
  | stat
  | open (succeeds : Bool)
  /-- The end of `_open`; `succeeds` is false when the `PRAGMA` before it raises. -/
  | record (succeeds : Bool)
  | query (succeeds : Bool)

/-! ### The steps -/

def Call.notice (rows : List KeyRow) (call : Call) : Call := { call with seen := rows :: call.seen }

namespace AuthStore

/-- The file at the path holds other rows now, and all calls that are under way have seen it. -/
def notice (rows : List KeyRow) (s : AuthStore) : AuthStore :=
  { s with
    waiting := s.waiting.map (Call.notice rows)
    holder := s.holder.map fun h => (h.1, h.2.map (Call.notice rows)) }

/-- The inode belongs to a file that is at the path or open. -/
def Taken (s : AuthStore) (file : ℕ) : Prop :=
  file = s.path ∨ s.conn = some file ∨ ∃ call, s.holder = some (.opened file, call)

instance (s : AuthStore) (file : ℕ) : Decidable (s.Taken file) := by
  unfold Taken
  match h : s.holder with
  | some (.opened f, call) =>
    exact decidable_of_iff (file = s.path ∨ s.conn = some file ∨ f = file) (by simp)
  | some (.stat, _) | some (.opening, _) | some (.ready, _) | none =>
    exact decidable_of_iff (file = s.path ∨ s.conn = some file) (by simp)

/-- The holder of the lock has ended without an answer. -/
def release (s : AuthStore) : AuthStore := { s with holder := none }

end AuthStore

/-- One action. -/
def step (s : AuthStore) : Action → Option AuthStore
  | .write rows =>
    some (AuthStore.notice rows { s with contents := Function.update s.contents s.path rows })
  | .replace file rows =>
    if s.Taken file then none
    else
      some (AuthStore.notice rows
        { s with path := file, contents := Function.update s.contents file rows })
  | .begin [] => some { s with answers := s.answers ++ [⟨[], none, [s.contents s.path]⟩] }
  | .begin (c :: auth) =>
    some { s with waiting := s.waiting ++ [⟨c :: auth, [s.contents s.path]⟩] }
  | .connect =>
    match s.holder, s.conn with
    | none, none => some { s with holder := some (.opening, none) }
    | _, _ => none
  | .enter i =>
    match s.holder, s.waiting[i]? with
    | none, some call => some { s with waiting := s.waiting.eraseIdx i, holder := some (.stat, some call) }
    | _, _ => none
  | .stat =>
    match s.holder with
    | some (.stat, call) =>
      if s.fileId = some s.path then some { s with holder := some (.ready, call) }
      else some { s with conn := none, holder := some (.opening, call) }
    | _ => none
  | .open succeeds =>
    match s.holder with
    | some (.opening, call) =>
      if succeeds then some { s with holder := some (.opened s.path, call) } else some s.release
    | _ => none
  | .record succeeds =>
    match s.holder with
    | some (.opened file, call) =>
      if succeeds then
        some { s with
          conn := some file, fileId := some s.path, holder := call.map fun call => (.ready, some call) }
      else some s.release
    | _ => none
  | .query succeeds =>
    match s.holder with
    | some (.ready, some call) =>
      match succeeds, s.conn with
      | true, some file =>
        some { s.release with
          answers := s.answers ++ [⟨call.auth, matchSecret call.auth (s.contents file), call.seen⟩] }
      | _, _ => some s.release
    | _ => none

/-- A store that is not connected yet. -/
def initial (rows : List KeyRow) : AuthStore := ⟨0, fun _ => rows, none, none, [], none, []⟩

end VpnBot.Hy2Auth
