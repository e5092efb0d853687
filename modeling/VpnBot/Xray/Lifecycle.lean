import VpnBot.System.Run
import VpnBot.Xray.Reconcile

/-!
# The operations on Xray keys

`create_xray_key`, `revoke_xray_key` and `revoke_xray_key_system`, `delete_xray_key`,
`reconcile_key_status` and `startup_reconcile` of `src/services/xray.py`, one step for each call that
they await.  All of them run inside the lock of the service, so at most one is under way (`holder`),
and one that waits for the lock has read nothing.

A call that raises has done nothing: a statement of the database, or a call of the adapter, whose
checks of its own are modelled.  The process may die between any two calls.  `issued` are the UUIDs
that `uuid4` has returned, which only statements read.

Not modelled: the roles of the actors, the audit log and the short ids.
-/

namespace VpnBot.Xray

open Py Sys

/-- The call that the operation in the lock awaits next; a `key` is the row as the operation has read
it. -/
inductive OpPc
  /-- In `_unique_identity`, with the pairs of UUID and label that are left to try. -/
  | createIdentity (transport : Transport) (shortId : Text) (candidates : List (Text × Text))
  | createInsert (transport : Transport) (shortId uuid email : Text)
  | createApply (key : VpnKey)
  | createFailed (key : VpnKey)
  | createActivate (key : VpnKey)
  /-- In `_compensate_failed_create_after_apply`. -/
  | createCompensate (key : VpnKey)
  | createCompensated (key : VpnKey)
  | revokeRead (id : ℕ)
  | revokePending (key : VpnKey)
  | revokeRemove (key : VpnKey)
  /-- The removal has raised, and the previous status is put back. -/
  | revokeRestore (key : VpnKey)
  | revokeMark (key : VpnKey)
  | deleteRead (id : ℕ)
  | deletePending (key : VpnKey)
  | deleteRemove (key : VpnKey)
  | deleteFailed (key : VpnKey)
  | deleteRow (key : VpnKey)
  | reconcileRead (id : ℕ)
  | reconcileActivate (key : VpnKey)
  | reconcileFail (key : VpnKey)
  /-- `startup_reconcile` reads the page after a key. -/
  | startupPage (lastId : ℕ) (failed : Bool)
  /-- It goes on with the keys of a page. -/
  | startupKeys (lastId : ℕ) (keys : List VpnKey) (failed : Bool)
  | startupActivate (key : VpnKey) (rest : List VpnKey) (failed : Bool)
  | startupFail (key : VpnKey) (rest : List VpnKey) (failed : Bool)
  | startupRemove (key : VpnKey) (rest : List VpnKey) (failed : Bool)
  | startupFinish (key : VpnKey) (rest : List VpnKey) (failed : Bool)
  | startupDeleteFailed (key : VpnKey) (rest : List VpnKey)
  /-- In `_startup_reconcile_drift`: it lists the active keys, then all keys. -/
  | driftActive
  | driftAll (activeKeys : List VpnKey)
  | driftNonLive (activeKeys keys : List VpnKey)
  | driftScan (activeKeys : List VpnKey) (transports : List Transport)
  | driftOrphans (activeKeys : List VpnKey) (t : Transport) (clients : List Client)
    (transports : List Transport)
  | driftRestore (keys : List VpnKey)

/-- The tables and the inbounds, the next id, the UUIDs that were generated, and the operation in the
lock. -/
structure XrayService where
  db : XrayState
  nextId : ℕ
  issued : List Text
  holder : Option OpPc

/-- The row that `create_pending` inserts. -/
def pendingKey (id : ℕ) (transport : Transport) (shortId uuid email : Text) : VpnKey where
  id := id
  keyType := .xray
  status := .pendingApply
  uuid := uuid
  emailLabel := email
  payloadUuid := uuid
  payloadEmailLabel := email
  shortId := shortId
  transport := transport

namespace XrayState

/-- `get_by_id`. -/
def getById (id : ℕ) (s : XrayState) : Option VpnKey := s.keys.find? fun key => key.id = id

/-- The row of `create_pending`. -/
def insertKey (key : VpnKey) (s : XrayState) : XrayState := { s with keys := s.keys ++ [key] }

/-- `list_by_type_statuses` with `after_id`. -/
def listPage (statuses : VpnKeyStatus → Bool) (afterId : ℕ) (s : XrayState) : List VpnKey :=
  ((s.listKeys statuses).filter fun key => afterId < key.id).take 500

end XrayState

/-- One client in `_remove_or_degrade_xray_orphans`; `none` is an ambiguous orphan. -/
def removeOrphan (activeKeys : List VpnKey) (t : Transport) (client : Client) (s : XrayState) :
    Option XrayState :=
  let uuid := strip client.id
  let email := strip client.email
  if ownedByActiveKey activeKeys uuid email then some s
  else
    match findXrayHistoricalOwner uuid email s with
    | some historical =>
      if historical.status = .active then some s else some (removeXrayAccess historical s)
    | none => if isManagedLabel email then some (s.removeClient t uuid email) else none

namespace XrayService

/-- The operation goes on. -/
def goto (s : XrayService) (db : XrayState) (pc : OpPc) : XrayService :=
  { s with db := db, holder := some pc }

/-- The operation ends, and leaves the lock. -/
def release (s : XrayService) (db : XrayState) : XrayService := { s with db := db, holder := none }

/-- The turn of one key in the first pass of `startup_reconcile`. -/
def startupTurn (s : XrayService) (key : VpnKey) (rest : List VpnKey) (failed : Bool) : OpPc :=
  match key.status with
  | .pendingApply =>
    match s.db.findClient key.transport key.uuid key.emailLabel with
    | none => .startupFail key rest failed
    | some _ => .startupActivate key rest failed
  | .applyFailed =>
    match s.db.findClient key.transport key.uuid key.emailLabel with
    | none => .startupKeys key.id rest failed
    | some _ => .startupActivate key rest failed
  | .pendingRevoke | .pendingDelete | .deleteFailed => .startupRemove key rest failed
  | .active | .revoked | .deleted | .failed => .startupKeys key.id rest failed

/-- The call returns. -/
def advance (s : XrayService) : OpPc → XrayService
  | .createIdentity _ _ [] => s.release s.db
  | .createIdentity transport shortId ((uuid, email) :: rest) =>
    if (s.db.findByUuid uuid).isNone && (s.db.findByEmailLabel email).isNone then
      s.goto s.db (.createInsert transport shortId uuid email)
    else s.goto s.db (.createIdentity transport shortId rest)
  | .createInsert transport shortId uuid email =>
    let key := pendingKey s.nextId transport shortId uuid email
    { s with nextId := s.nextId + 1 }.goto (s.db.insertKey key) (.createApply key)
  | .createApply key =>
    match addClient key.transport key.uuid key.emailLabel s.db with
    | .ok _ db => s.goto db (.createActivate key)
    | .error _ db => s.goto db (.createFailed key)
  | .createFailed key => s.release (s.db.setStatus key.id .applyFailed)
  | .createActivate key => s.release (s.db.markActive key.id)
  | .createCompensate key => s.goto (removeXrayAccess key s.db) (.createCompensated key)
  | .createCompensated key => s.release (s.db.setStatus key.id .applyFailed)
  | .revokeRead id =>
    match s.db.getById id with
    | none => s.release s.db
    | some key =>
      if key.keyType = .xray && key.status.accessMayExist then s.goto s.db (.revokePending key)
      else s.release s.db
  | .revokePending key => s.goto (s.db.setStatus key.id .pendingRevoke) (.revokeRemove key)
  | .revokeRemove key => s.goto (removeXrayAccess key s.db) (.revokeMark key)
  | .revokeRestore key => s.release (s.db.setStatus key.id key.status)
  | .revokeMark key => s.release (s.db.markRevoked key.id)
  | .deleteRead id =>
    match s.db.getById id with
    | none => s.release s.db
    | some key =>
      if key.keyType = .xray then s.goto s.db (.deletePending key) else s.release s.db
  | .deletePending key =>
    s.goto (s.db.setStatus key.id .pendingDelete)
      (if key.status.accessMayExist then .deleteRemove key else .deleteRow key)
  | .deleteRemove key => s.goto (removeXrayAccess key s.db) (.deleteRow key)
  | .deleteFailed key => s.release (s.db.setStatus key.id .deleteFailed)
  | .deleteRow key => s.release (s.db.hardDelete key.id)
  | .reconcileRead id =>
    match s.db.getById id with
    | none => s.release s.db
    | some key =>
      if key.keyType = .xray then
        match s.db.findClient key.transport key.uuid key.emailLabel with
        | some _ =>
          if key.status = .pendingApply ∨ key.status = .applyFailed then
            s.goto s.db (.reconcileActivate key)
          else s.release s.db
        | none =>
          if key.status = .pendingApply then s.goto s.db (.reconcileFail key) else s.release s.db
      else s.release s.db
  | .reconcileActivate key => s.release (s.db.markActive key.id)
  | .reconcileFail key => s.release (s.db.setStatus key.id .applyFailed)
  | .startupPage lastId failed =>
    match s.db.listPage startupReconcileStatuses lastId with
    | [] => if failed then s.release s.db else s.goto s.db .driftActive
    | keys => s.goto s.db (.startupKeys lastId keys failed)
  | .startupKeys lastId [] failed => s.goto s.db (.startupPage lastId failed)
  | .startupKeys _ (key :: rest) failed => s.goto s.db (s.startupTurn key rest failed)
  | .startupActivate key rest failed =>
    s.goto (s.db.markActive key.id) (.startupKeys key.id rest failed)
  | .startupFail key rest failed =>
    s.goto (s.db.setStatus key.id .applyFailed) (.startupKeys key.id rest failed)
  | .startupRemove key rest failed =>
    s.goto (removeXrayAccess key s.db) (.startupFinish key rest failed)
  | .startupFinish key rest failed =>
    s.goto
      (if key.status = .pendingRevoke then s.db.markRevoked key.id else s.db.hardDelete key.id)
      (.startupKeys key.id rest failed)
  | .startupDeleteFailed key rest =>
    s.goto (s.db.setStatus key.id .deleteFailed) (.startupKeys key.id rest true)
  | .driftActive => s.goto s.db (.driftAll (s.db.listKeys (· = .active)))
  | .driftAll activeKeys => s.goto s.db (.driftNonLive activeKeys (s.db.listKeys fun _ => true))
  | .driftNonLive activeKeys [] => s.goto s.db (.driftScan activeKeys [.tcp, .http])
  | .driftNonLive activeKeys (key :: rest) =>
    s.goto (removeNonLiveXrayClient s.db key) (.driftNonLive activeKeys rest)
  | .driftScan activeKeys [] => s.goto s.db (.driftRestore activeKeys)
  | .driftScan activeKeys (t :: rest) =>
    s.goto s.db (.driftOrphans activeKeys t (s.db.clients t) rest)
  | .driftOrphans activeKeys _ [] rest => s.goto s.db (.driftScan activeKeys rest)
  | .driftOrphans activeKeys t (client :: clients) rest =>
    match removeOrphan activeKeys t client s.db with
    | some db => s.goto db (.driftOrphans activeKeys t clients rest)
    | none => s.release s.db
  | .driftRestore [] => s.release s.db
  | .driftRestore (key :: rest) =>
    if key.ownUuid.isEmpty || key.ownEmail.isEmpty || key.shortId.isEmpty then s.release s.db
    else
      match s.db.findClient key.transport key.ownUuid key.ownEmail with
      | some _ => s.goto s.db (.driftRestore rest)
      | none =>
        match addClient key.transport key.ownUuid key.ownEmail s.db with
        | .ok _ db => s.goto db (.driftRestore rest)
        | .error _ db => s.release db

end XrayService

/-- What an operation awaits after its call has raised; `none` leaves the lock. -/
def OpPc.raised : OpPc → Option OpPc
  | .createApply key => some (.createFailed key)
  | .createActivate key => some (.createCompensate key)
  | .revokeRemove key => some (.revokeRestore key)
  | .deleteRemove key => some (.deleteFailed key)
  | .startupKeys _ (key :: rest) _ | .startupActivate key rest _ | .startupFail key rest _
  | .startupFinish key rest _ | .startupDeleteFailed key rest =>
    some (.startupKeys key.id rest true)
  | .startupRemove key rest _ =>
    if key.status = .pendingRevoke then some (.startupKeys key.id rest true)
    else some (.startupDeleteFailed key rest)
  | _ => none

/-- What happens next. -/
inductive OpAction
  /-- `create_xray_key` takes the lock; `uuid4` will give it these UUIDs. -/
  | create (transport : Transport) (shortId : Text) (candidates : List (Text × Text))
  | revoke (id : ℕ)
  | delete (id : ℕ)
  | reconcile (id : ℕ)
  | startup
  /-- The call that the operation awaits returns. -/
  | returns
  /-- It raises. -/
  | raises
  /-- The process dies and is started again. -/
  | die

namespace XrayService

/-- An operation takes the lock. -/
def enter (s : XrayService) (pc : OpPc) : Option XrayService :=
  match s.holder with
  | none => some { s with holder := some pc }
  | some _ => none

def step (s : XrayService) : OpAction → Option XrayService
  | .create transport shortId candidates =>
    { s with issued := candidates.map Prod.fst ++ s.issued }.enter
      (.createIdentity transport shortId candidates)
  | .revoke id => s.enter (.revokeRead id)
  | .delete id => s.enter (.deleteRead id)
  | .reconcile id => s.enter (.reconcileRead id)
  | .startup => s.enter (.startupPage 0 false)
  | .returns => s.holder.map s.advance
  | .raises => s.holder.map fun pc => { s with holder := pc.raised }
  | .die => some { s with holder := none }

end XrayService

end VpnBot.Xray
