import VpnBot.Bundles.Create
import VpnBot.System.Rows

/-!
# The children of a bundle

The rows of `vpn_keys` and of `key_bundles` and what the services of the keys do to the children of a
bundle: `create_xray_key`, `revoke_xray_key` and `delete_xray_key` of `src/services/xray.py`, `issue`,
`revoke` and `delete_hysteria2_key` of `src/services/hysteria.py`, and `_provision_child`,
`_revoke_child` and `_delete_child` of `src/services/key_bundles.py`; and the turn of a key in the
reconcile of the Xray service at a start.  Each call that they await may fail, before or after its
effect.

A `checks` is everything that a method reads before it writes: the health of the backend, the actor, the
settings and the relays.  Not modelled: the audit log, the short ids, the fingerprints, and the live
sessions that Hysteria kicks.
-/

namespace VpnBot.KeyBundles

open Py Sys
open Bundles (BundleMember KeyBundleKind XhttpProfile)

/-! ### The data -/

/-- `KeyBundleStatus`. -/
inductive KeyBundleStatus
  | active
  | pendingRevoke
  | revoked
  | pendingDelete
  | deleteFailed
  | deleted
  deriving DecidableEq

/-- A row of `vpn_keys`. -/
structure VpnKey where
  id : ℕ
  keyType : VpnKeyType
  transport : Transport
  xhttpProfile : XhttpProfile
  relay : Option Text
  status : VpnKeyStatus
  bundleId : Option ℕ
  expiresAt : Option ℕ
  deriving DecidableEq

/-- A row of `key_bundles`. -/
structure KeyBundle where
  id : ℕ
  kind : KeyBundleKind
  status : KeyBundleStatus
  token : Text
  deriving DecidableEq

/-- The tables, and the clients on the Xray inbounds by the ids of their keys. -/
structure KeyTables where
  keys : Rows VpnKey VpnKey.id
  bundles : Rows KeyBundle KeyBundle.id
  clients : List ℕ

/-- The exceptions; an `InvalidOperation` is named after its key. -/
inductive BundleError
  /-- A call of the database or of a backend has raised. -/
  | raised
  | notFound
  | errNotXrayKey
  | errNotHy2Key
  | errRevokeActiveXrayOnly
  | errRevokeActiveHy2Only
  /-- "Протокол … не входит в all-in-one подписку". -/
  | unsupportedProtocol
  | invalidTransition
  | concurrentModification
  | integrityError
  | errBundleRevokeActiveOnly
  | errBundleRevokePartial
  | errBundleDeleteForbidden
  | errBundleHasKeys
  deriving DecidableEq

/-- A method of the services. -/
abbrev KeyM := Program KeyTables BundleError

inductive ChildCall
  | checks
  | setPending
  | removeClient
  | restoreStatus
  | markRevoked
  | readBack
  | markDeleteFailed
  | hardDelete
  | insertPending
  | readPending
  | link
  | recheck
  | addClient
  | markApplyFailed
  | markActive
  | compensate
  | markCompensated
  | readActive
  | config
  | attach
  deriving DecidableEq

/-- Which calls for one child fail, and how. -/
abbrev ChildFaults := ChildCall → Option CallFault

/-- The statuses in which there is nothing left to revoke. -/
def isClosed (status : VpnKeyStatus) : Bool := status = .revoked || status = .deleted

/-- `HYSTERIA2_REVOCABLE_STATUSES`. -/
def hysteria2Revocable : VpnKeyStatus → Bool
  | .active | .pendingApply | .applyFailed => true
  | .pendingRevoke | .revoked | .pendingDelete | .deleteFailed | .deleted | .failed => false

/-- `_REMOVAL_STATUSES` of `src/services/key_bundles.py`. -/
def isRemoval (status : VpnKeyStatus) : Bool := status = .pendingDelete || status = .deleteFailed

/-! ### Statements -/

def VpnKey.attachTo (bundleId : ℕ) (key : VpnKey) : VpnKey := { key with bundleId := some bundleId }

def VpnKey.mapStatus (f : VpnKeyStatus → VpnKeyStatus) (key : VpnKey) : VpnKey :=
  { key with status := f key.status }

namespace KeyTables

/-- The row of `create_pending`; only an Xray key of the HTTP transport has a profile of its own. -/
def pendingKey (member : BundleMember) (expiresAt : Option ℕ) (id : ℕ) : VpnKey where
  id := id
  keyType := match member.keyType with
    | .xray => .xray
    | .hysteria2 => .hysteria2
  transport := member.transport
  xhttpProfile := match member.transport with
    | .tcp => .base
    | .http => member.xhttpProfile
  relay := member.relay
  status := .pendingApply
  bundleId := none
  expiresAt := expiresAt

/-- The row of a key that was issued, with the status that it has. -/
def issuedKey (member : BundleMember) (expiresAt : Option ℕ) (id : ℕ) (status : VpnKeyStatus) : VpnKey :=
  { pendingKey member expiresAt id with status := status }

/-- The statement of `create_pending`. -/
def insertPending (member : BundleMember) (expiresAt : Option ℕ) (s : KeyTables) : KeyTables :=
  { s with keys := s.keys.insert (pendingKey member expiresAt s.keys.next) rfl }

/-- `attach_key_to_bundle`. -/
def attachKeyToBundle (id bundleId : ℕ) (s : KeyTables) : KeyTables :=
  { s with keys := s.keys.update id (VpnKey.attachTo bundleId) fun _ => rfl }

/-- `UPDATE vpn_keys SET status = … WHERE id = ?`. -/
def mapStatus (id : ℕ) (f : VpnKeyStatus → VpnKeyStatus) (s : KeyTables) : KeyTables :=
  { s with keys := s.keys.update id (VpnKey.mapStatus f) fun _ => rfl }

/-- `set_status`. -/
def setStatus (id : ℕ) (status : VpnKeyStatus) : KeyTables → KeyTables := mapStatus id fun _ => status

/-- The statement of `mark_active`. -/
def markActive (id : ℕ) : KeyTables → KeyTables :=
  mapStatus id fun status =>
    if status = .pendingApply ∨ status = .applyFailed then .active else status

/-- The statement of `mark_revoked`. -/
def markRevoked (id : ℕ) : KeyTables → KeyTables :=
  mapStatus id fun status => if isClosed status then status else .revoked

/-- `hard_delete_with_stats`. -/
def hardDelete (id : ℕ) (s : KeyTables) : KeyTables := { s with keys := s.keys.delete id }

def addClient (id : ℕ) (s : KeyTables) : KeyTables := { s with clients := s.clients ++ [id] }

/-- An inbound that is not configured has no clients. -/
def removeClient (id : ℕ) (s : KeyTables) : KeyTables :=
  { s with clients := s.clients.filter (· ≠ id) }

/-- `list_keys_of_bundle`. -/
def childrenOf (bundleId : ℕ) (s : KeyTables) : List VpnKey :=
  s.keys.rows.filter fun key => key.bundleId = some bundleId

/-- The key lets its user in: its client is on the inbound, or its backend finds its row active. -/
def Live (s : KeyTables) (key : VpnKey) : Prop :=
  match key.keyType with
  | .xray => key.id ∈ s.clients
  | .hysteria2 | .awg => key.status = .active

instance (s : KeyTables) (key : VpnKey) : Decidable (s.Live key) := by
  unfold Live
  cases key.keyType <;> exact inferInstance

end KeyTables

/-! ### The services of the keys -/

section Services

variable (fault : ChildFaults)

/-- A call with an effect. -/
def write (c : ChildCall) (effect : KeyTables → KeyTables) : KeyM Unit :=
  Program.call (fault c) .raised effect

/-- A call without effect. -/
def query (c : ChildCall) : KeyM Unit := write fault c id

/-- `_get_key`. -/
def getKey (id : ℕ) : KeyM VpnKey := do
  let s ← get
  match s.keys.find? id with
  | none => throw .notFound
  | some key => return key

/-- `create_pending`: the row, and the query that reads it back. -/
def createPending (member : BundleMember) (expiresAt : Option ℕ) : KeyM ℕ := do
  let s ← get
  write fault .insertPending (KeyTables.insertPending member expiresAt)
  query fault .readPending
  return s.keys.next

/-- `_compensate_failed_create_after_apply`: the client goes again, and then the key is marked. -/
def compensateFailedCreateAfterApply (id : ℕ) : KeyM Unit := do
  let removed ← Program.attempt (write fault .compensate (KeyTables.removeClient id))
  if removed then
    let _ ← Program.attempt (write fault .markCompensated (KeyTables.setStatus id .applyFailed))
    return ()
  else return ()

/-- `create_xray_key`. -/
def createXrayKey (member : BundleMember) (expiresAt : Option ℕ) : KeyM ℕ := do
  query fault .checks
  let id ← createPending fault member expiresAt
  query fault .link
  tryCatch
    (do
      query fault .recheck
      write fault .addClient (KeyTables.addClient id))
    fun e => do
      write fault .markApplyFailed (KeyTables.setStatus id .applyFailed)
      throw e
  tryCatch (write fault .markActive (KeyTables.markActive id)) fun e => do
    compensateFailedCreateAfterApply fault id
    throw e
  query fault .readActive
  query fault .config
  return id

/-- `HysteriaService.issue`. -/
def issueHysteria2Key (member : BundleMember) (expiresAt : Option ℕ) : KeyM ℕ := do
  query fault .checks
  let id ← createPending fault member expiresAt
  tryCatch (write fault .markActive (KeyTables.markActive id)) fun e => do
    let _ ← Program.attempt (write fault .markApplyFailed (KeyTables.setStatus id .applyFailed))
    throw e
  query fault .readActive
  query fault .config
  return id

/-- `mark_revoked` raises when it has changed no row. -/
def markRevoked (id : ℕ) : KeyM Unit := do
  let s ← get
  write fault .markRevoked (KeyTables.markRevoked id)
  if (s.keys.find? id).any fun key => !isClosed key.status then return ()
  else throw .invalidTransition

/-- `revoke_xray_key`. -/
def revokeXrayKey (id : ℕ) : KeyM Unit := do
  query fault .checks
  let key ← getKey id
  if key.keyType ≠ .xray then throw .errNotXrayKey
  else if isClosed key.status then return ()
  else if !key.status.accessMayExist then throw .errRevokeActiveXrayOnly
  else do
    write fault .setPending (KeyTables.setStatus id .pendingRevoke)
    tryCatch (write fault .removeClient (KeyTables.removeClient id)) fun e => do
      write fault .restoreStatus (KeyTables.setStatus id key.status)
      throw e
    markRevoked fault id
    query fault .readBack
    let _ ← getKey id
    return ()

/-- `HysteriaService.revoke`. -/
def revokeHysteria2Key (id : ℕ) : KeyM Unit := do
  query fault .checks
  let key ← getKey id
  if key.keyType ≠ .hysteria2 then throw .errNotHy2Key
  else if isClosed key.status then return ()
  else if !hysteria2Revocable key.status then throw .errRevokeActiveHy2Only
  else do
    markRevoked fault id
    query fault .readBack
    let _ ← getKey id
    return ()

/-- `delete_xray_key`. -/
def deleteXrayKey (id : ℕ) : KeyM Unit := do
  query fault .checks
  let key ← getKey id
  if key.keyType ≠ .xray then throw .errNotXrayKey
  else do
    write fault .setPending (KeyTables.setStatus id .pendingDelete)
    if key.status.accessMayExist then
      tryCatch (write fault .removeClient (KeyTables.removeClient id)) fun e => do
        write fault .markDeleteFailed (KeyTables.setStatus id .deleteFailed)
        throw e
      write fault .hardDelete (KeyTables.hardDelete id)
    else write fault .hardDelete (KeyTables.hardDelete id)

/-- `delete_hysteria2_key`. -/
def deleteHysteria2Key (id : ℕ) : KeyM Unit := do
  query fault .checks
  let key ← getKey id
  if key.keyType ≠ .hysteria2 then throw .errNotHy2Key
  else write fault .hardDelete (KeyTables.hardDelete id)

/-- `_startup_reconcile_key`, for a key whose inbound is configured. -/
def startupReconcileKey (key : VpnKey) : KeyM Unit := do
  let s ← get
  if key.status = .pendingApply ∨ key.status = .applyFailed then
    if key.id ∈ s.clients then write fault .markActive (KeyTables.markActive key.id)
    else if key.status = .pendingApply then
      write fault .markApplyFailed (KeyTables.setStatus key.id .applyFailed)
    else return ()
  else if key.status = .pendingRevoke then do
    write fault .removeClient (KeyTables.removeClient key.id)
    markRevoked fault key.id
  else if isRemoval key.status then do
    tryCatch (write fault .removeClient (KeyTables.removeClient key.id)) fun e => do
      write fault .markDeleteFailed (KeyTables.setStatus key.id .deleteFailed)
      throw e
    write fault .hardDelete (KeyTables.hardDelete key.id)
  else return ()

/-- `_provision_child`; it returns the id of the key. -/
def provisionChild (member : BundleMember) (expiresAt : Option ℕ) : KeyM ℕ :=
  match member.keyType with
  | .xray => createXrayKey fault member expiresAt
  | .hysteria2 => issueHysteria2Key fault member expiresAt

/-- `attach_key_to_bundle`; a bundle that does not exist breaks the foreign key. -/
def attachKey (id bundleId : ℕ) : KeyM Unit := do
  let s ← get
  if (s.bundles.find? bundleId).isSome then
    write fault .attach (KeyTables.attachKeyToBundle id bundleId)
  else throw .integrityError

/-- `_revoke_child`. -/
def revokeChild (key : VpnKey) : KeyM Unit :=
  match key.keyType with
  | .xray => revokeXrayKey fault key.id
  | .hysteria2 => revokeHysteria2Key fault key.id
  | .awg => throw .unsupportedProtocol

/-- `_delete_child`. -/
def deleteChild (key : VpnKey) : KeyM Unit :=
  match key.keyType with
  | .xray => deleteXrayKey fault key.id
  | .hysteria2 => deleteHysteria2Key fault key.id
  | .awg => throw .unsupportedProtocol

end Services

end VpnBot.KeyBundles
