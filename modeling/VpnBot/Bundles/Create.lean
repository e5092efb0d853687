import VpnBot.Keys.VpnKey
import VpnBot.Python.Text
import VpnBot.System.Calls

/-!
# Creating an all-in-one bundle

`create_bundle` of `src/services/key_bundles.py` with what it calls: the issuing of an Xray and of a
Hysteria2 key, attaching a key, and the rollback.  Every call of the database or of a backend is a
`call` at a site of its own; `faults` says for each site whether the call fails, whether it has
taken effect before it fails, and whether it fails by a cancellation of the task, which passes every
`except Exception`.  A key row is `pendingApply` first, then its client is added, and then it becomes
`active`; Hysteria2 keys have no client, their backend reads the rows.  A client that cannot be taken
back marks XRAY as degraded, and then keys of Xray are neither issued nor deleted.

Not modelled: the audit entries and the kick of a client, whose exceptions are only logged.  A
cancellation there is one of the call before it, after its effect.
-/

namespace VpnBot.Bundles

open Py Sys

/-! ### The data -/

/-- The key types that a bundle may hold. -/
inductive ChildType
  | xray
  | hysteria2
  deriving DecidableEq

/-- `XHTTP_PROFILES`. -/
inductive XhttpProfile
  | base
  | multi
  | antisib
  deriving DecidableEq

/-- One child key that a bundle provisions. -/
structure BundleMember where
  keyType : ChildType
  transport : Transport
  xhttpProfile : XhttpProfile
  relay : Option Text
  deriving DecidableEq

def BundleMember.hasClient (member : BundleMember) : Bool := member.keyType = .xray

/-- `KeyBundleKind`. -/
inductive KeyBundleKind
  | basic
  | extended
  deriving DecidableEq

/-- The statuses of a bundle that its creation uses. -/
inductive KeyBundleStatus
  | active
  | deleteFailed
  deriving DecidableEq

/-- A row of `vpn_keys`; `member` is its key type, transport, profile and relay. -/
structure VpnKey where
  id : ℕ
  member : BundleMember
  status : VpnKeyStatus
  bundleId : Option ℕ
  deriving DecidableEq

/-- A row of `key_bundles`. -/
structure KeyBundle where
  id : ℕ
  label : ℕ
  kind : KeyBundleKind
  status : KeyBundleStatus
  deriving DecidableEq

/-- The rows, the clients on the Xray inbounds by the ids of their keys, and whether XRAY is degraded. -/
structure BundleState where
  keys : List VpnKey
  bundles : List KeyBundle
  clients : List ℕ
  xrayDegraded : Bool

/-! ### The composition -/

/-- `_direct_members`. -/
def directMembers : KeyBundleKind → List BundleMember
  | .basic => [⟨.xray, .tcp, .base, none⟩, ⟨.hysteria2, .tcp, .base, none⟩]
  | .extended =>
    [⟨.xray, .tcp, .base, none⟩, ⟨.hysteria2, .tcp, .base, none⟩, ⟨.xray, .http, .base, none⟩,
      ⟨.xray, .http, .multi, none⟩, ⟨.xray, .http, .antisib, none⟩]

/-- `bundle_composition`: the direct members, and once more through each relay. -/
def bundleComposition (kind : KeyBundleKind) (relays : List Text) : List BundleMember :=
  directMembers kind ++
    relays.flatMap fun relay => (directMembers kind).map fun m => { m with relay := some relay }

/-! ### Rows and clients -/

namespace BundleState

/-- The id of the next key row; it names no row and no client. -/
def freshKeyId (s : BundleState) : ℕ := (s.keys.map VpnKey.id ++ s.clients).foldr max 0 + 1

/-- The id of the next bundle row; no row names it. -/
def freshBundleId (s : BundleState) : ℕ :=
  (s.bundles.map KeyBundle.id ++ s.keys.filterMap VpnKey.bundleId).foldr max 0 + 1

def insertPending (member : BundleMember) (s : BundleState) : BundleState :=
  { s with keys := s.keys ++ [⟨s.freshKeyId, member, .pendingApply, none⟩] }

/-- `UPDATE vpn_keys SET … WHERE id = ?`. -/
def updateKey (id : ℕ) (f : VpnKey → VpnKey) (s : BundleState) : BundleState :=
  { s with keys := s.keys.map fun key => if key.id = id then f key else key }

def setStatus (id : ℕ) (status : VpnKeyStatus) (s : BundleState) : BundleState :=
  s.updateKey id fun key => { key with status := status }

/-- `mark_active`: only a pending or failed key becomes active. -/
def markActive (id : ℕ) (s : BundleState) : BundleState :=
  s.updateKey id fun key =>
    if key.status = .pendingApply ∨ key.status = .applyFailed then { key with status := .active }
    else key

def attachKeyToBundle (id bundleId : ℕ) (s : BundleState) : BundleState :=
  s.updateKey id fun key => { key with bundleId := some bundleId }

def hardDelete (id : ℕ) (s : BundleState) : BundleState :=
  { s with keys := s.keys.filter fun key => key.id ≠ id }

def addClient (id : ℕ) (s : BundleState) : BundleState := { s with clients := s.clients ++ [id] }

def removeClient (id : ℕ) (s : BundleState) : BundleState :=
  { s with clients := s.clients.filter (· ≠ id) }

def insertBundle (label : ℕ) (kind : KeyBundleKind) (s : BundleState) : BundleState :=
  { s with bundles := s.bundles ++ [⟨s.freshBundleId, label, kind, .active⟩] }

def deleteBundle (id : ℕ) (s : BundleState) : BundleState :=
  { s with bundles := s.bundles.filter fun bundle => bundle.id ≠ id }

def setBundleStatus (id : ℕ) (status : KeyBundleStatus) (s : BundleState) : BundleState :=
  { s with
    bundles := s.bundles.map fun bundle => if bundle.id = id then { bundle with status := status }
      else bundle }

/-- `mark_degraded`, if it is called. -/
def degrade (degraded : Bool) (s : BundleState) : BundleState :=
  { s with xrayDegraded := degraded || s.xrayDegraded }

end BundleState

/-! ### Calls that may fail -/

/-- How a call fails, and whether that is by a cancellation of the task. -/
structure Fault where
  call : CallFault
  cancelled : Bool
  deriving DecidableEq

inductive ChildCall
  | checks
  | insertPending
  | readPending
  | link
  | recheck
  | addClient
  | markApplyFailed
  | markActive
  | compensate
  | markCompensated
  | readActive
  | config
  | attach
  deriving DecidableEq

/-- The calls made to delete one child. -/
inductive UndoCall
  | read
  | setPending
  | removeClient
  | markDeleteFailed
  | hardDelete
  deriving DecidableEq

/-- The places at which `create_bundle` waits for the database or a backend. -/
inductive CallSite
  | prechecks
  | bundleInsert
  | bundleRead
  | child (k : ℕ) (call : ChildCall)
  | finalRead
  | undo (k : ℕ) (call : UndoCall)
  | bundleDelete
  | bundleMark
  deriving DecidableEq

/-- Which calls fail, and how. -/
abbrev Faults := CallSite → Option Fault

/-- The exceptions; a cancellation is no `Exception`. -/
inductive BundleError
  | failed (site : CallSite)
  | cancelled (site : CallSite)
  | degraded
  | noBackends
  | noLabel
  | notFound (id : ℕ)
  | restricted (bundleId : ℕ)
  deriving DecidableEq

/-- `CancelledError`. -/
def BundleError.isCancelled : BundleError → Bool
  | .cancelled _ => true
  | _ => false

/-- What a call that fails raises. -/
def Fault.error (fault : Fault) (site : CallSite) : BundleError :=
  if fault.cancelled then .cancelled site else .failed site

/-- A method of the services. -/
abbrev BundleM := Program BundleState BundleError

section Calls

variable (faults : Faults)

def call (site : CallSite) (effect : BundleState → BundleState) : BundleM Unit :=
  match faults site with
  | none => modify effect
  | some fault => Program.call (some fault.call) (fault.error site) effect

/-- A call without effect: a query or a check. -/
def query (site : CallSite) : BundleM Unit := call faults site id

/-- `try … except Exception`. -/
def tryException {α : Type} (p : BundleM α) (handler : BundleError → BundleM α) : BundleM α :=
  Program.tryExcept BundleError.isCancelled p handler

/-- A call whose exceptions are logged only; whether it has succeeded. -/
def attempt (p : BundleM Unit) : BundleM Bool :=
  tryException (do p; return true) fun _ => return false

/-- `require_mutation_allowed(VpnKeyType.XRAY)`. -/
def requireXrayAllowed : BundleM Unit := do
  let s ← get
  if s.xrayDegraded then throw .degraded

/-! ### Issuing a key -/

/-- `create_pending`: the row, and the query that reads it back. -/
def createPending (k : ℕ) (member : BundleMember) : BundleM ℕ := do
  let s ← get
  call faults (.child k .insertPending) (BundleState.insertPending member)
  query faults (.child k .readPending)
  return s.freshKeyId

/-- `_compensate_failed_create_after_apply`: the client goes again, and then the key is marked; when that
raises XRAY is degraded. -/
def compensateFailedCreateAfterApply (k id : ℕ) : BundleM Unit := do
  let removed ← attempt (call faults (.child k .compensate) (BundleState.removeClient id))
  if removed then
    let _ ← attempt
      (call faults (.child k .markCompensated) (BundleState.setStatus id .applyFailed))
    return ()
  else modify (BundleState.degrade true)

/-- The client of an Xray key is added; when that fails the row is marked. -/
def applyXrayClient (k id : ℕ) : BundleM Unit :=
  tryException
    (do
      query faults (.child k .recheck)
      call faults (.child k .addClient) (BundleState.addClient id))
    fun e => do
      call faults (.child k .markApplyFailed) (BundleState.setStatus id .applyFailed)
      throw e

/-- The row of an Xray key becomes active; when that fails the client is taken back. -/
def activateXrayKey (k id : ℕ) : BundleM Unit :=
  tryException (call faults (.child k .markActive) (BundleState.markActive id)) fun e => do
    compensateFailedCreateAfterApply faults k id
    throw e

/-- The row of a Hysteria2 key becomes active; when that fails the row is marked. -/
def activateHysteria2Key (k id : ℕ) : BundleM Unit :=
  tryException (call faults (.child k .markActive) (BundleState.markActive id)) fun e => do
    let _ ← attempt
      (call faults (.child k .markApplyFailed) (BundleState.setStatus id .applyFailed))
    throw e

/-- `create_xray_key`. -/
def createXrayKey (k : ℕ) (member : BundleMember) : BundleM ℕ := do
  requireXrayAllowed
  query faults (.child k .checks)
  let id ← createPending faults k member
  query faults (.child k .link)
  applyXrayClient faults k id
  activateXrayKey faults k id
  query faults (.child k .readActive)
  query faults (.child k .config)
  return id

/-- `HysteriaService.issue`. -/
def issueHysteria2 (k : ℕ) (member : BundleMember) : BundleM ℕ := do
  query faults (.child k .checks)
  let id ← createPending faults k member
  activateHysteria2Key faults k id
  query faults (.child k .readActive)
  query faults (.child k .config)
  return id

/-- `_provision_child`. -/
def provisionChild (k : ℕ) (member : BundleMember) : BundleM ℕ :=
  match member.keyType with
  | .xray => createXrayKey faults k member
  | .hysteria2 => issueHysteria2 faults k member

/-! ### Rollback -/

/-- `delete_xray_key`. -/
def deleteXrayKey (k id : ℕ) : BundleM Unit := do
  requireXrayAllowed
  query faults (.undo k .read)
  let s ← get
  match s.keys.find? fun key => key.id = id with
  | none => throw (.notFound id)
  | some key => do
    call faults (.undo k .setPending) (BundleState.setStatus id .pendingDelete)
    if key.status.accessMayExist then
      tryException (call faults (.undo k .removeClient) (BundleState.removeClient id)) fun e => do
        call faults (.undo k .markDeleteFailed) (BundleState.setStatus id .deleteFailed)
        throw e
      call faults (.undo k .hardDelete) (BundleState.hardDelete id)
    else call faults (.undo k .hardDelete) (BundleState.hardDelete id)

/-- `delete_hysteria2_key`. -/
def deleteHysteria2Key (k id : ℕ) : BundleM Unit := do
  query faults (.undo k .read)
  let s ← get
  match s.keys.find? fun key => key.id = id with
  | none => throw (.notFound id)
  | some _ => call faults (.undo k .hardDelete) (BundleState.hardDelete id)

/-- `_delete_child`. -/
def deleteChild (k : ℕ) (member : BundleMember) (id : ℕ) : BundleM Unit :=
  match member.keyType with
  | .xray => deleteXrayKey faults k id
  | .hysteria2 => deleteHysteria2Key faults k id

/-- The children of a rollback, newest first; the ids of those that could not be deleted. -/
def deleteChildren : List (BundleMember × ℕ) → BundleM (List ℕ)
  | [] => return []
  | child :: older => do
    let deleted ← attempt (deleteChild faults older.length child.1 child.2)
    let failed ← deleteChildren older
    return if deleted then failed else child.2 :: failed

/-- `KeyBundleRepository.delete`: the foreign key of the key rows is RESTRICT. -/
def deleteBundleRow (bundleId : ℕ) : BundleM Unit := do
  let s ← get
  if s.keys.any fun key => key.bundleId = some bundleId then throw (.restricted bundleId)
  else call faults .bundleDelete (BundleState.deleteBundle bundleId)

/-- `_rollback_partial_bundle`. -/
def rollbackPartialBundle (bundleId : ℕ) (created : List (BundleMember × ℕ)) : BundleM Unit := do
  let failed ← deleteChildren faults created.reverse
  let undone ← if failed.isEmpty then attempt (deleteBundleRow faults bundleId) else pure false
  if undone then return ()
  else
    let _ ← attempt (call faults .bundleMark (BundleState.setBundleStatus bundleId .deleteFailed))
    return ()

/-! ### Creation -/

/-- `require_mutation_allowed` for the backends of the members; that of HYSTERIA2 is one of the checks. -/
def requireAllowed (included : List BundleMember) : BundleM Unit :=
  if included.any BundleMember.hasClient then requireXrayAllowed else pure ()

/-- `_create_bundle_row`: a label that is taken is replaced by the next one. -/
def createBundleRow (kind : KeyBundleKind) : List ℕ → BundleM ℕ
  | [] => throw .noLabel
  | label :: labels => do
    let s ← get
    if s.bundles.any fun bundle => bundle.label = label then createBundleRow kind labels
    else do
      call faults .bundleInsert (BundleState.insertBundle label kind)
      query faults .bundleRead
      return s.freshBundleId

def issueAndAttach (k : ℕ) (member : BundleMember) (bundleId : ℕ) : BundleM ℕ := do
  let id ← provisionChild faults k member
  call faults (.child k .attach) (BundleState.attachKeyToBundle id bundleId)
  return id

/-- The loop over the members; `created` holds the children that are attached. -/
def issueChildren (bundleId : ℕ) : List (BundleMember × ℕ) → List BundleMember →
    BundleM (List (BundleMember × ℕ))
  | created, [] => return created
  | created, member :: members => do
    let id ← tryException (issueAndAttach faults created.length member bundleId) fun e => do
      rollbackPartialBundle faults bundleId created
      throw e
    issueChildren bundleId (created ++ [(member, id)]) members

/-- `create_bundle` for the members whose backends are on; `labels` are the five labels that the
id generator gives.  It returns the id of the bundle. -/
def createBundle (kind : KeyBundleKind) (labels : List ℕ) (included : List BundleMember) :
    BundleM ℕ := do
  query faults .prechecks
  if included.isEmpty then throw .noBackends
  else do
    requireAllowed included
    let bundleId ← createBundleRow faults kind labels
    let _ ← issueChildren faults bundleId [] included
    query faults .finalRead
    return bundleId

end Calls

end VpnBot.Bundles
