import VpnBot.Python.Text
import VpnBot.System.Rows
import VpnBot.System.Run

/-!
# Disabling a protocol module

`disable_protocol` of `src/services/protocol_modules.py` beside the operations that issue, revoke and
delete the keys or accesses of the module, in `src/services/xray.py`, `awg.py`, `hysteria.py`,
`socks5.py` and `mtproto.py`, one step for each call that they await.  The services have one shape: an
operation runs inside the lock of its service and writes to the table before and after a call to the
backend.  Where they differ, the functions of `ProtocolModule` say how.

A call that raises has not written to the table; one to the backend may have done its work before it
raised.  An operation may be cancelled at any call.

Not modelled: the roles of the actors, the health of the backend, the audit log, the contents of an
access beyond what names it on the backend, and the live sessions that Hysteria kicks.
-/

namespace VpnBot.Modules

open Py Sys

/-! ### The data -/

/-- The modules; MTProto in the mode of its settings. -/
inductive ProtocolModule
  | xray
  | awg
  | hysteria2
  | socks5
  | mtproto (managed : Bool)
  deriving DecidableEq

/-- `VpnKeyStatus` and `ProxyAccessStatus`; `failed` is one of the first only, `revokeFailed` and
`inactive` are of the second only. -/
inductive AccessStatus
  | pendingApply
  | active
  | applyFailed
  | pendingRevoke
  | revoked
  | revokeFailed
  | inactive
  | pendingDelete
  | deleteFailed
  | deleted
  | failed
  deriving DecidableEq

/-- A row of `vpn_keys` or of `proxy_accesses`.  The artefact is what names it on the backend: the UUID
of an Xray client, the public key of an AWG peer, the login of a Dante user, the secret of MTProxy; a
Hysteria key has its label here, and nothing on the backend.  Only MTProto has accesses that are not
managed: they share a secret that is not the module's to remove. -/
structure Access where
  id : ℕ
  owner : ℕ
  status : AccessStatus
  artefact : Text
  managed : Bool
  deriving DecidableEq

namespace AccessStatus

/-- `XRAY_ACCESS_MAY_EXIST_STATUSES`, `AWG_ACCESS_MAY_EXIST_STATUSES` and
`MTPROTO_ACCESS_MAY_EXIST_STATUSES`. -/
def accessMayExist : AccessStatus → Bool
  | .active | .pendingApply | .applyFailed | .pendingRevoke | .revokeFailed | .pendingDelete
  | .deleteFailed => true
  | .revoked | .inactive | .deleted | .failed => false

/-- The statuses in which the proxy services have nothing left to revoke. -/
def isClosed : AccessStatus → Bool
  | .revoked | .inactive | .deleted => true
  | _ => false

end AccessStatus

/-- The call that the operation in the lock awaits next; an `access` is the row as the operation has
read it, and `deleting` says that the revocation is the first half of `delete_mtproto_proxy`. -/
inductive OpPc
  /-- It looks for an access of the owner and for an artefact that is not taken. -/
  | issueRead (owner : ℕ) (artefacts : List Text)
  | issueInsert (owner : ℕ) (artefact : Text)
  | issueApply (access : Access)
  | issueFailed (access : Access)
  | issueActivate (access : Access)
  | issueCompensate (access : Access)
  /-- SOCKS5 locks the user that it could not delete. -/
  | issueLock (access : Access)
  | issueCompensated (access : Access)
  | revokeRead (id : ℕ) (deleting : Bool)
  | revokePending (access : Access) (deleting : Bool)
  | revokeRemove (access : Access) (deleting : Bool)
  /-- The removal has raised. -/
  | revokeRestore (access : Access) (deleting : Bool)
  | revokeMark (access : Access) (deleting : Bool)
  | deleteRead (id : ℕ)
  | deletePending (access : Access)
  | deleteRemove (access : Access)
  | deleteFailed (access : Access)
  | deleteRow (access : Access)
  /-- The second half of `delete_mtproto_proxy`. -/
  | deleteMark (id : ℕ)

/-- An operation in the lock, and whether it is a call of the purge. -/
structure Operation where
  pc : OpPc
  purge : Bool

/-- Where `disable_protocol` is. -/
inductive Purge
  | idle
  /-- It has read the pages up to a key, with these ids. -/
  | listing (afterId : ℕ) (ids : List ℕ)
  /-- It goes on with the ids, or sets the flag. -/
  | purging (ids : List ℕ) (deleted failed : ℕ)
  /-- It has called the purger for an id. -/
  | calling (id : ℕ) (ids : List ℕ) (deleted failed : ℕ)
  /-- The same, between the two halves of `delete_mtproto_proxy`. -/
  | marking (id : ℕ) (ids : List ℕ) (deleted failed : ℕ)
  | returned (deleted failed : ℕ)
  | raised
  deriving DecidableEq

/-- The module: its flag, its table and the next id, the artefacts on the backend, the owners of the
issues that have passed the check of the flag, the operation in the lock, the ids of the deletes of
MTProto that are between their halves, and the purge. -/
structure ModuleState where
  enabled : Bool
  accesses : List Access
  nextId : ℕ
  backend : List Text
  admitted : List ℕ
  holder : Option Operation
  deletes : List ℕ
  purge : Purge

namespace Purge

/-- The purger has returned or raised for the id. -/
def counted (ok : Bool) : Purge → Purge
  | .calling _ ids deleted failed | .marking _ ids deleted failed =>
    if ok then .purging ids (deleted + 1) failed else .purging ids deleted (failed + 1)
  | purge => purge

/-- It waits for the second half of the delete. -/
def marked : Purge → Purge
  | .calling id ids deleted failed => .marking id ids deleted failed
  | purge => purge

/-- The last page has been read. -/
def listed : Purge → Bool
  | .purging _ _ _ | .calling _ _ _ _ | .marking _ _ _ _ | .returned _ _ => true
  | .idle | .listing _ _ | .raised => false

end Purge

namespace ModuleState

/-- `get_by_id`. -/
def getById (id : ℕ) (s : ModuleState) : Option Access := s.accesses.find? fun access => access.id = id

/-- `set_status`. -/
def setStatus (id : ℕ) (status : AccessStatus) (s : ModuleState) : ModuleState :=
  { s with accesses := updateRow Access.id id (fun access => { access with status := status }) s.accesses }

/-- `mark_active`. -/
def markActive (id : ℕ) (s : ModuleState) : ModuleState :=
  { s with accesses := updateRow Access.id id (fun access =>
      if access.status = .pendingApply ∨ access.status = .applyFailed then
        { access with status := .active }
      else access) s.accesses }

/-- An update that finds no row in a status it starts from raises. -/
def mark (blocked : AccessStatus → Bool) (status : AccessStatus) (id : ℕ) (s : ModuleState) :
    Option ModuleState :=
  match s.getById id with
  | none => none
  | some access => if blocked access.status then none else some (s.setStatus id status)

/-- `mark_revoked`. -/
def markRevoked : ℕ → ModuleState → Option ModuleState :=
  mark (fun status => status = .revoked || status = .deleted) .revoked

/-- `mark_inactive`. -/
def markInactive : ℕ → ModuleState → Option ModuleState := mark AccessStatus.isClosed .inactive

/-- `mark_deleted`. -/
def markDeleted : ℕ → ModuleState → Option ModuleState :=
  mark (fun status => status = .deleted) .deleted

/-- `hard_delete_with_stats`. -/
def hardDelete (id : ℕ) (s : ModuleState) : ModuleState :=
  { s with accesses := s.accesses.filter fun access => access.id ≠ id }

/-- `create_pending` and `create`. -/
def insert (access : Access) (s : ModuleState) : ModuleState :=
  { s with accesses := s.accesses ++ [access], nextId := s.nextId + 1 }

/-- `_active_access`. -/
def activeAccess (owner : ℕ) (s : ModuleState) : Option Access :=
  s.accesses.find? fun access => access.owner = owner && access.status = .active

/-- The secrets of `_active_managed_accesses`, but for one access. -/
def activeManaged (except : ℕ) (s : ModuleState) : List Text :=
  (s.accesses.filter fun access =>
    access.status = .active && access.managed && access.id ≠ except).map Access.artefact

end ModuleState

/-! ### Where the services differ -/

namespace ProtocolModule

/-- Whether a deleted access stays as a row. -/
def softDeletes : ProtocolModule → Bool
  | .socks5 | .mtproto _ => true
  | .xray | .awg | .hysteria2 => false

/-- The statuses in which a revocation goes on. -/
def revocable : ProtocolModule → AccessStatus → Bool
  | .xray, status | .awg, status => status.accessMayExist
  | .hysteria2, status => status = .active || status = .pendingApply || status = .applyFailed
  | .socks5, status | .mtproto _, status => !status.isClosed

/-- The artefact is looked for in the table; the proxy services pass over the rows of accesses that are
gone, and look for it on the backend too. -/
def taken (m : ProtocolModule) (artefact : Text) (s : ModuleState) : Bool :=
  if m.softDeletes then
    (s.accesses.any fun access => access.artefact = artefact &&
      access.status ≠ .deleted && access.status ≠ .inactive) || artefact ∈ s.backend
  else s.accesses.any fun access => access.artefact = artefact

/-- The backend after the artefact has been added: MTProxy is given the secrets of the active accesses
and this one. -/
def applied (m : ProtocolModule) (access : Access) (s : ModuleState) : List Text :=
  match m with
  | .mtproto _ => s.activeManaged access.id ++ [access.artefact]
  | .hysteria2 => s.backend
  | .xray | .awg | .socks5 => s.backend ++ [access.artefact]

/-- The backend after the artefact has been removed. -/
def removed (m : ProtocolModule) (access : Access) (s : ModuleState) : List Text :=
  match m with
  | .mtproto _ => s.activeManaged access.id
  | .hysteria2 => s.backend
  | .xray | .awg | .socks5 => s.backend.filter fun artefact => artefact ≠ access.artefact

/-- The backend after a revocation: SOCKS5 locks the user, which stays. -/
def revokedFrom (m : ProtocolModule) (access : Access) (s : ModuleState) : List Text :=
  match m with
  | .socks5 => s.backend
  | .xray | .awg | .hysteria2 | .mtproto _ => m.removed access s

/-- The status after a revocation that has failed: the previous one, but `revoke_failed` in MTProto. -/
def restored (m : ProtocolModule) (access : Access) : AccessStatus :=
  match m with
  | .mtproto _ => .revokeFailed
  | .xray | .awg | .hysteria2 | .socks5 => access.status

end ProtocolModule

namespace ModuleState

/-- The operation goes on. -/
def goto (s : ModuleState) (op : Operation) (pc : OpPc) : ModuleState :=
  { s with holder := some { op with pc := pc } }

/-- A call of the purger, if it is one, has returned or raised. -/
def count (s : ModuleState) (purge ok : Bool) : ModuleState :=
  if purge then { s with purge := s.purge.counted ok } else s

/-- The operation leaves the lock and ends. -/
def release (s : ModuleState) (op : Operation) (ok : Bool) : ModuleState :=
  { s with holder := none }.count op.purge ok

/-- `delete_mtproto_proxy` has revoked the access, and waits for the lock. -/
def awaitMark (s : ModuleState) (purge : Bool) (id : ℕ) : ModuleState :=
  if purge then { s with purge := s.purge.marked } else { s with deletes := id :: s.deletes }

/-- The revocation leaves the lock. -/
def endRevoke (s : ModuleState) (op : Operation) (id : ℕ) (deleting : Bool) : ModuleState :=
  if deleting then { s with holder := none }.awaitMark op.purge id else s.release op true

/-- An operation takes the lock. -/
def enter (s : ModuleState) (op : Operation) : Option ModuleState :=
  match s.holder with
  | none => some { s with holder := some op }
  | some _ => none

end ModuleState

/-! ### The operations in the lock -/

namespace ProtocolModule

/-- The call returns. -/
def advance (m : ProtocolModule) (s : ModuleState) (op : Operation) : ModuleState :=
  match op.pc with
  | .issueRead _ [] => s.release op false
  | .issueRead owner (artefact :: rest) =>
    match m, s.activeAccess owner with
    | .socks5, some _ | .mtproto _, some _ => s.release op true
    | _, _ =>
      if m.taken artefact s then s.goto op (.issueRead owner rest)
      else s.goto op (.issueInsert owner artefact)
  | .issueInsert owner artefact =>
    let access : Access := ⟨s.nextId, owner, .pendingApply, artefact, true⟩
    match m with
    | .hysteria2 => (s.insert access).goto op (.issueActivate access)
    | .xray | .awg | .socks5 | .mtproto _ => (s.insert access).goto op (.issueApply access)
  | .issueApply access =>
    match m with
    | .mtproto _ => { s with backend := m.applied access s }.goto op (.issueActivate access)
    | .xray | .awg | .socks5 | .hysteria2 =>
      if access.artefact ∈ s.backend then s.goto op (.issueFailed access)
      else { s with backend := m.applied access s }.goto op (.issueActivate access)
  | .issueFailed access => (s.setStatus access.id .applyFailed).release op false
  | .issueActivate access => (s.markActive access.id).release op true
  | .issueCompensate access =>
    { s with backend := m.removed access s }.goto op (.issueCompensated access)
  | .issueLock access => s.goto op (.issueCompensated access)
  | .issueCompensated access => (s.setStatus access.id .applyFailed).release op false
  | .revokeRead id deleting =>
    match s.getById id with
    | none => s.release op false
    | some access =>
      if m.revocable access.status then
        match m with
        | .hysteria2 => s.goto op (.revokeMark access deleting)
        | .xray | .awg | .socks5 | .mtproto _ => s.goto op (.revokePending access deleting)
      else if deleting && access.status ≠ .deleted then
        { s with holder := none }.awaitMark op.purge id
      else s.release op true
  | .revokePending access deleting =>
    (s.setStatus access.id .pendingRevoke).goto op (.revokeRemove access deleting)
  | .revokeRemove access deleting =>
    { s with backend := m.revokedFrom access s }.goto op (.revokeMark access deleting)
  | .revokeRestore access _ => (s.setStatus access.id (m.restored access)).release op false
  | .revokeMark access deleting =>
    match s.markRevoked access.id with
    | none => s.release op false
    | some s' => s'.endRevoke op access.id deleting
  | .deleteRead id =>
    match s.getById id with
    | none => s.release op false
    | some access =>
      match m with
      | .hysteria2 => s.goto op (.deleteRow access)
      | .xray | .awg => s.goto op (.deletePending access)
      | .socks5 | .mtproto _ =>
        if access.status = .deleted then s.release op true else s.goto op (.deletePending access)
  | .deletePending access =>
    (s.setStatus access.id .pendingDelete).goto op
      (if m.softDeletes || access.status.accessMayExist then .deleteRemove access
      else .deleteRow access)
  | .deleteRemove access => { s with backend := m.removed access s }.goto op (.deleteRow access)
  | .deleteFailed access => (s.setStatus access.id .deleteFailed).release op false
  | .deleteRow access =>
    if m.softDeletes then
      match s.markDeleted access.id with
      | none => s.release op false
      | some s' => s'.release op true
    else (s.hardDelete access.id).release op true
  | .deleteMark id =>
    match s.markDeleted id with
    | none => s.release op false
    | some s' => s'.release op true

/-- What the operation awaits after its call has raised; `none` leaves the lock. -/
def raised (m : ProtocolModule) : OpPc → Option OpPc
  | .issueApply access => some (.issueFailed access)
  | .issueActivate access =>
    match m with
    | .hysteria2 => some (.issueCompensated access)
    | .xray | .awg | .socks5 | .mtproto _ => some (.issueCompensate access)
  | .issueCompensate access =>
    match m with
    | .socks5 => some (.issueLock access)
    | .xray | .awg | .hysteria2 | .mtproto _ => none
  | .revokeRemove access deleting => some (.revokeRestore access deleting)
  | .deleteRemove access => some (.deleteFailed access)
  | _ => none

def backendAfter (m : ProtocolModule) (s : ModuleState) : OpPc → List Text
  | .issueApply access => m.applied access s
  | .issueCompensate access | .deleteRemove access => m.removed access s
  | .revokeRemove access _ => m.revokedFrom access s
  | _ => s.backend

/-- The call raises, with its work on the backend done or not. -/
def fail (m : ProtocolModule) (s : ModuleState) (op : Operation) (done : Bool) : ModuleState :=
  let s' := if done then { s with backend := m.backendAfter s op.pc } else s
  match m.raised op.pc with
  | some pc => s'.goto op pc
  | none => s'.release op false

/-! ### The system -/

/-- A revocation starts.  MTProto reads the access before it takes the lock: an access that is not
managed becomes inactive without it. -/
def startRevoke (m : ProtocolModule) (s : ModuleState) (id : ℕ) : Option ModuleState :=
  match m with
  | .mtproto _ =>
    match s.getById id with
    | none => some s
    | some access =>
      if access.status.isClosed then some s
      else if access.managed then s.enter ⟨.revokeRead id false, false⟩
      else some ((s.markInactive id).getD s)
  | .xray | .awg | .hysteria2 | .socks5 => s.enter ⟨.revokeRead id false, false⟩

def startDelete (m : ProtocolModule) (s : ModuleState) (purge : Bool) (id : ℕ) :
    Option ModuleState :=
  match m with
  | .mtproto _ =>
    match s.getById id with
    | none => some (s.count purge false)
    | some access =>
      if access.status = .deleted then some (s.count purge true)
      else if access.status.isClosed then some (s.awaitMark purge id)
      else if access.managed then s.enter ⟨.revokeRead id true, purge⟩
      else
        match s.markInactive id with
        | none => some (s.count purge false)
        | some s' => some (s'.awaitMark purge id)
  | .xray | .awg | .hysteria2 | .socks5 => s.enter ⟨.deleteRead id, purge⟩

end ProtocolModule

/-- What happens next. -/
inductive Action
  /-- An issue passes the check of the flag. -/
  | ensureEnabled (owner : ℕ)
  /-- It ends before it has taken the lock. -/
  | withdraw (owner : ℕ)
  /-- It takes the lock; it will be given these artefacts. -/
  | issue (owner : ℕ) (artefacts : List Text)
  /-- `_issue_static` inserts the row, without the lock. -/
  | issueStatic (owner : ℕ) (secret : Text)
  | revoke (id : ℕ)
  | delete (id : ℕ)
  /-- A delete of MTProto takes the lock for its second half. -/
  | deleteMark (id : ℕ)
  /-- The call of the operation in the lock returns. -/
  | returns
  /-- It raises; its work on the backend is done or not. -/
  | raises (done : Bool)
  /-- The operation in the lock is cancelled. -/
  | cancel
  /-- `disable_protocol` is called. -/
  | disable
  /-- A call that it awaits itself returns: a page, the flag, or the lock for the purger. -/
  | purgeReturns
  | purgeRaises

/-- The call that `disable_protocol` awaits returns. -/
def purgeStep (m : ProtocolModule) (s : ModuleState) : Option ModuleState :=
  match s.purge with
  | .listing afterId ids =>
    let page := pageAfter Access.id (fun access => access.status ≠ .deleted) 500 afterId s.accesses
    match page.getLast? with
    | none => some { s with purge := .purging ids 0 0 }
    | some last => some { s with purge := .listing last.id (ids ++ page.map Access.id) }
  | .purging [] deleted failed => some { s with enabled := false, purge := .returned deleted failed }
  | .purging (id :: ids) deleted failed => some { s with purge := .calling id ids deleted failed }
  | .calling id _ _ _ =>
    if s.holder.any Operation.purge then none else m.startDelete s true id
  | .marking id _ _ _ => s.enter ⟨.deleteMark id, true⟩
  | .idle | .returned _ _ | .raised => none

/-- It raises: the listing and the flag end `disable_protocol`, the purger before the lock does not. -/
def purgeFail (s : ModuleState) : Option ModuleState :=
  match s.purge with
  | .listing _ _ | .purging [] _ _ => some { s with purge := .raised }
  | .calling _ _ _ _ | .marking _ _ _ _ =>
    if s.holder.any Operation.purge then none else some (s.count true false)
  | .purging (_ :: _) _ _ | .idle | .returned _ _ | .raised => none

def step (m : ProtocolModule) (s : ModuleState) : Action → Option ModuleState
  | .ensureEnabled owner => if s.enabled then some { s with admitted := owner :: s.admitted } else none
  | .withdraw owner =>
    if owner ∈ s.admitted then some { s with admitted := s.admitted.erase owner } else none
  | .issue owner artefacts =>
    if owner ∈ s.admitted ∧ m ≠ .mtproto false then
      { s with admitted := s.admitted.erase owner }.enter ⟨.issueRead owner artefacts, false⟩
    else none
  | .issueStatic owner secret =>
    if owner ∈ s.admitted ∧ m = .mtproto false then
      let s' := { s with admitted := s.admitted.erase owner }
      match s.activeAccess owner with
      | some _ => some s'
      | none => some (s'.insert ⟨s.nextId, owner, .active, secret, false⟩)
    else none
  | .revoke id => m.startRevoke s id
  | .delete id => m.startDelete s false id
  | .deleteMark id =>
    if id ∈ s.deletes then
      { s with deletes := s.deletes.erase id }.enter ⟨.deleteMark id, false⟩
    else none
  | .returns => s.holder.map (m.advance s)
  | .raises done => s.holder.map fun op => m.fail s op done
  | .cancel => s.holder.map fun op =>
      { s with holder := none, purge := if op.purge then .raised else s.purge }
  | .disable =>
    match s.purge with
    | .idle => some { s with purge := .listing 0 [] }
    | _ => none
  | .purgeReturns => purgeStep m s
  | .purgeRaises => purgeFail s

/-- The step inserts a row. -/
def inserts (s : ModuleState) : Action → Bool
  | .returns =>
    match s.holder with
    | some ⟨.issueInsert _ _, _⟩ => true
    | _ => false
  | .issueStatic owner _ => (s.activeAccess owner).isNone
  | _ => false

end VpnBot.Modules
