import Mathlib.Data.Int.Notation
import VpnBot.System.Rows

/-!
# The rows of keys and proxy accesses, and who writes their status

The statements of `src/repositories/vpn_keys.py` and `src/repositories/proxy_accesses.py` that write the
status of a row, and the methods of the five services that execute them: `revoke…`, `delete…` and the
reconciliation.  A method reads the row, and from its status follows what it writes (`Plan`): first a mark,
then, after the call of the backend, either its last statement or the status of a failure.  Between two
statements it waits, so a method is a `Section` that goes on statement by statement.

The rows of the two tables are numbered together.  Not modelled: the other columns of a row, what the
backends do, and the health of a backend, which makes a method raise.
-/

namespace VpnBot.Issuing

open Sys

/-! ### Rows -/

/-- What is issued.  An access of MTProto belongs to the mode in which it was issued. -/
inductive Kind
  | xray
  | awg
  | hysteria2
  | socks5
  | mtprotoManaged
  | mtprotoStatic
  deriving DecidableEq

/-- The tables `vpn_keys` and `proxy_accesses`. -/
inductive Family
  | keys
  | proxies
  deriving DecidableEq

def Kind.family : Kind → Family
  | .xray | .awg | .hysteria2 => .keys
  | .socks5 | .mtprotoManaged | .mtprotoStatic => .proxies

/-- The kinds are of one `access_type`. -/
def Kind.sameType : Kind → Kind → Bool
  | .mtprotoManaged, .mtprotoStatic | .mtprotoStatic, .mtprotoManaged => true
  | a, b => a = b

/-- The rows of the kind are written under the lock of its service; the accesses of MTProto in static mode
are not. -/
def Kind.locked (kind : Kind) : Bool := kind ≠ .mtprotoStatic

/-- The statuses of `VpnKeyStatus` and of `ProxyAccessStatus`, by their texts. -/
inductive RowStatus
  | pendingApply
  | active
  | applyFailed
  | pendingRevoke
  | revoked
  | revokeFailed
  | inactive
  | pendingDelete
  | deleteFailed
  | deleted
  | failed
  deriving DecidableEq

/-- The status is one of the enumeration of the table; any other makes `enum_value` raise. -/
def Family.hasStatus : Family → RowStatus → Bool
  | .keys, .revokeFailed | .keys, .inactive | .proxies, .failed => false
  | _, _ => true

/-- The statuses that `block_user` looks for in a table. -/
def Family.live : Family → List RowStatus
  | .keys => [.active, .pendingApply, .applyFailed, .pendingRevoke, .pendingDelete, .deleteFailed]
  | .proxies =>
    [.active, .pendingApply, .applyFailed, .pendingRevoke, .revokeFailed, .pendingDelete, .deleteFailed]

/-- A row of `vpn_keys` or `proxy_accesses`. -/
structure Row where
  id : ℕ
  owner : ℤ
  kind : Kind
  status : RowStatus
  deriving DecidableEq

/-- The two tables. -/
abbrev AccessRows := Rows Row Row.id

/-! ### Statements -/

/-- The statements that write a status: `set_status`, `mark_active`, `mark_revoked`, `mark_inactive`,
`mark_deleted` and `hard_delete_with_stats`. -/
inductive Statement
  | setStatus (status : RowStatus)
  | markActive
  | markRevoked
  | markInactive
  | markDeleted
  | hardDelete
  deriving DecidableEq

namespace Statement

/-- The `WHERE` clause on the status. -/
def applies : Statement → RowStatus → Bool
  | setStatus _, _ | hardDelete, _ => true
  | markActive, status => status = .pendingApply || status = .applyFailed
  | markRevoked, status => !(status = .revoked || status = .deleted)
  | markInactive, status => !(status = .inactive || status = .revoked || status = .deleted)
  | markDeleted, status => status ≠ .deleted

/-- The status that it writes; `hard_delete_with_stats` deletes the row. -/
def leaves : Statement → Option RowStatus
  | setStatus status => some status
  | markActive => some .active
  | markRevoked => some .revoked
  | markInactive => some .inactive
  | markDeleted => some .deleted
  | hardDelete => none

/-- The row with the status written, if the clause holds. -/
def write (statement : Statement) (status : RowStatus) (row : Row) : Row :=
  if statement.applies row.status then { row with status := status } else row

@[simp] theorem write_id (statement : Statement) (status : RowStatus) (row : Row) :
    (statement.write status row).id = row.id := by
  unfold write
  split <;> rfl

@[simp] theorem write_kind (statement : Statement) (status : RowStatus) (row : Row) :
    (statement.write status row).kind = row.kind := by
  unfold write
  split <;> rfl

@[simp] theorem write_owner (statement : Statement) (status : RowStatus) (row : Row) :
    (statement.write status row).owner = row.owner := by
  unfold write
  split <;> rfl

/-- The tables after the statement. -/
def execute (statement : Statement) (id : ℕ) (rows : AccessRows) : AccessRows :=
  match statement.leaves with
  | none => rows.delete id
  | some status => rows.update id (statement.write status) (statement.write_id status)

/-- The method of the statement returns: `mark_active` wants a row, and the others that are guarded raise
`InvalidTransition` when no row was changed. -/
def returns (statement : Statement) (id : ℕ) (rows : AccessRows) : Bool :=
  match statement with
  | setStatus _ | hardDelete => true
  | markActive => (rows.find? id).isSome
  | markRevoked | markInactive | markDeleted =>
    (rows.find? id).any fun row => statement.applies row.status

end Statement

/-! ### Plans -/

/-- What a method does with a row whose status it has read: the mark, the status after a failure of the
backend, the last statement, and the status that it sets when the last statement raises. -/
structure Plan where
  seen : RowStatus
  mark : Option RowStatus
  failed : Option RowStatus
  finish : Statement
  undo : Option RowStatus
  deriving DecidableEq

/-- What follows from the status that a method has read. -/
inductive Decision
  | returns
  | raises
  | goes (plan : Plan)
  deriving DecidableEq

/-- `XRAY_ACCESS_MAY_EXIST_STATUSES`, `AWG_ACCESS_MAY_EXIST_STATUSES`. -/
def accessMayExist (status : RowStatus) : Bool := status ∈ Family.keys.live

/-- `revoke_xray_key_system` and `revoke_awg_key_system`. -/
def revokeKey (status : RowStatus) : Decision :=
  if status = .revoked ∨ status = .deleted then .returns
  else if accessMayExist status = false then .raises
  else .goes ⟨status, some .pendingRevoke, some status, .markRevoked, none⟩

/-- `revoke_hysteria2_key_system`; the guard is `HYSTERIA2_REVOCABLE_STATUSES`. -/
def revokeHysteria2Key (status : RowStatus) : Decision :=
  if status = .revoked ∨ status = .deleted then .returns
  else if status = .active ∨ status = .pendingApply ∨ status = .applyFailed then
    .goes ⟨status, none, none, .markRevoked, none⟩
  else .raises

/-- The accesses that a revoke leaves as they are. -/
def RowStatus.settled (status : RowStatus) : Bool :=
  status = .revoked || status = .inactive || status = .deleted

/-- `_revoke_socks5_proxy`. -/
def revokeSocks5Proxy (status : RowStatus) : Decision :=
  if status.settled then .returns
  else .goes ⟨status, some .pendingRevoke, some status, .markRevoked, none⟩

/-- `_revoke_managed`. -/
def revokeManaged (status : RowStatus) : Decision :=
  if status.settled then .returns
  else .goes ⟨status, some .pendingRevoke, some .revokeFailed, .markRevoked, none⟩

/-- `_deactivate_static`. -/
def deactivateStatic (status : RowStatus) : Decision :=
  if status.settled then .returns else .goes ⟨status, none, none, .markInactive, none⟩

/-- `delete_xray_key` and `delete_awg_key`. -/
def deleteKey (status : RowStatus) : Decision :=
  -- the backend is called, and may fail, only where it may have the client
  .goes ⟨status, some .pendingDelete, if accessMayExist status then some .deleteFailed else none,
    .hardDelete, none⟩

/-- `delete_hysteria2_key`. -/
def deleteHysteria2Key (status : RowStatus) : Decision :=
  .goes ⟨status, none, none, .hardDelete, none⟩

/-- `delete_socks5_proxy`. -/
def deleteSocks5Proxy (status : RowStatus) : Decision :=
  if status = .deleted then .returns
  else .goes ⟨status, some .pendingDelete, some .deleteFailed, .markDeleted, none⟩

/-- The second part of `delete_mtproto_proxy`; the first one is a revoke. -/
def deleteMtprotoProxy (status : RowStatus) : Decision :=
  .goes ⟨status, none, none, .markDeleted, none⟩

/-- `reconcile_key_status` and `_startup_reconcile_key` of Xray and AWG; `present` says whether the
backend has the client. -/
def reconcileKey (present : Bool) (status : RowStatus) : Decision :=
  match status, present with
  | .pendingApply, true | .applyFailed, true => .goes ⟨status, none, none, .markActive, none⟩
  | .pendingApply, false => .goes ⟨status, none, none, .setStatus .applyFailed, none⟩
  | .pendingRevoke, _ => .goes ⟨status, none, none, .markRevoked, none⟩
  | .pendingDelete, _ | .deleteFailed, _ => .goes ⟨status, none, some .deleteFailed, .hardDelete, none⟩
  | _, _ => .returns

/-- `_startup_reconcile_access`. -/
def reconcileSocks5 (present : Bool) (status : RowStatus) : Decision :=
  match status, present with
  | .pendingApply, true | .applyFailed, true => .goes ⟨status, none, none, .markActive, none⟩
  | .pendingApply, false => .goes ⟨status, none, none, .setStatus .applyFailed, none⟩
  | .pendingRevoke, _ => .goes ⟨status, none, none, .markRevoked, none⟩
  | .pendingDelete, _ | .deleteFailed, _ => .goes ⟨status, none, none, .markDeleted, none⟩
  | _, _ => .returns

/-- `_startup_reconcile_managed_access`. -/
def reconcileManaged (present : Bool) (status : RowStatus) : Decision :=
  match status, present with
  | .pendingApply, true => .goes ⟨status, none, none, .markActive, some .applyFailed⟩
  | .pendingApply, false => .goes ⟨status, none, none, .setStatus .applyFailed, none⟩
  | .pendingRevoke, _ | .revokeFailed, _ => .goes ⟨status, none, none, .markRevoked, none⟩
  | .pendingDelete, _ | .deleteFailed, _ => .goes ⟨status, none, none, .markDeleted, none⟩
  | _, _ => .returns

/-- The methods that write the status of a row that is there; `reconcile` knows whether the backend has
the access. -/
inductive Method
  | revoke
  | delete
  | reconcile (present : Bool)
  deriving DecidableEq

def Method.decide : Method → Kind → RowStatus → Decision
  | .revoke, .xray | .revoke, .awg => revokeKey
  | .revoke, .hysteria2 => revokeHysteria2Key
  | .revoke, .socks5 => revokeSocks5Proxy
  | .revoke, .mtprotoManaged => revokeManaged
  | .revoke, .mtprotoStatic => deactivateStatic
  | .delete, .xray | .delete, .awg => deleteKey
  | .delete, .hysteria2 => deleteHysteria2Key
  | .delete, .socks5 => deleteSocks5Proxy
  | .delete, .mtprotoManaged | .delete, .mtprotoStatic => deleteMtprotoProxy
  | .reconcile present, .xray | .reconcile present, .awg => reconcileKey present
  | .reconcile present, .socks5 => reconcileSocks5 present
  | .reconcile present, .mtprotoManaged => reconcileManaged present
  | .reconcile _, .hysteria2 | .reconcile _, .mtprotoStatic => fun _ => .returns

/-! ### Sections -/

/-- Where a method waits after it has read the row. -/
inductive SectionPc
  | marking
  | calling
  | failing
  | finishing
  | undoing
  deriving DecidableEq

/-- A method that works on a row. -/
structure Section where
  kind : Kind
  id : ℕ
  plan : Plan
  pc : SectionPc
  deriving DecidableEq

/-- How an awaited call ends; a statement may raise after its effect. -/
inductive Answer
  | returns
  | raises
  | raisesAfter
  deriving DecidableEq

/-- A section goes on, or its method ends, and returns or raises. -/
inductive Continuation
  | goes (pc : SectionPc)
  | ended (returned : Bool)
  deriving DecidableEq

namespace Section

/-- Where a method goes on after it has read the row. -/
def entry (plan : Plan) : SectionPc := if plan.mark.isSome then .marking else .calling

/-- The statement that comes next, if there is one, and what follows. -/
def advance (rows : AccessRows) (answer : Answer) (sec : Section) : Option Statement × Continuation :=
  match sec.pc with
  | .marking => (sec.plan.mark.map .setStatus, .goes .calling)
  | .calling => (none, .goes (if answer = .returns then .finishing else .failing))
  | .failing => (sec.plan.failed.map .setStatus, .ended false)
  | .finishing =>
    match answer with
    | .returns =>
      (some sec.plan.finish,
        if sec.plan.finish.returns sec.id rows then .ended true else .goes .undoing)
    | .raises => (none, .goes .undoing)
    | .raisesAfter => (some sec.plan.finish, .goes .undoing)
  | .undoing => (sec.plan.undo.map .setStatus, .ended false)

end Section

end VpnBot.Issuing
