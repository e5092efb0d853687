import VpnBot.Keys.VpnKey
import VpnBot.Python.Lines
import VpnBot.System.Program

/-!
# The startup reconcile of Xray

`startup_reconcile` of `src/services/xray.py` with the client lists of
`src/adapters/xray_config.py`, both transports configured.  The state is the table of keys, in the
order of its primary key, and the client list of each inbound; an absent or NULL text is the empty
one, which every test of the code treats alike.  The calls of the database and of the adapter are
taken to succeed, but for the checks they make themselves.
-/

namespace VpnBot.Xray

open Py Sys

/-! ### The data -/

/-- `a or b` for texts. -/
def orText (a b : Text) : Text := if a.isEmpty then b else a

structure Client where
  id : Text
  email : Text
  deriving DecidableEq

/-- A row of `vpn_keys`.  The identifiers stand in columns and in the payload; `shortId` is the
short id that a restore finds in the payloads or in the settings. -/
structure VpnKey where
  id : ℕ
  keyType : VpnKeyType
  status : VpnKeyStatus
  uuid : Text
  emailLabel : Text
  payloadUuid : Text
  payloadEmailLabel : Text
  shortId : Text
  transport : Transport
  deriving DecidableEq

namespace VpnKey

/-- The UUID that `_xray_restore_values` and `_xray_active_identities` read. -/
def ownUuid (key : VpnKey) : Text := strip (orText key.payloadUuid key.uuid)

/-- The email label that they read. -/
def ownEmail (key : VpnKey) : Text := strip (orText key.payloadEmailLabel key.emailLabel)

end VpnKey

/-- The table of keys and the clients of the two inbounds. -/
structure XrayState where
  keys : List VpnKey
  clients : Transport → List Client

/-! ### The adapter -/

/-- The test of `_find_client_in_list`: the UUID or the email. -/
def matchesFind (uuid email : Text) (client : Client) : Bool :=
  (!uuid.isEmpty && client.id = uuid) || (!email.isEmpty && client.email = email)

/-- `_matches_client_for_remove`: the email only where there is no UUID. -/
def matchesRemove (uuid email : Text) (client : Client) : Bool :=
  if !uuid.isEmpty then client.id = uuid else !email.isEmpty && client.email = email

/-- `_EMAIL_SAFE_RE`; its `$` also matches before a line feed at the end. -/
def isEmailSafe (email : Text) : Bool :=
  let safe (c : Char) : Bool := c.isAlphanum || c ∈ ['@', '.', '_', '+']
  match if email.getLast? = some '\n' then email.dropLast else email with
  | [] => false
  | c :: rest => safe c && rest.all fun d => safe d || d = '-'

namespace XrayState

def setClients (t : Transport) (l : List Client) (s : XrayState) : XrayState :=
  { s with clients := fun t' => if t' = t then l else s.clients t' }

/-- `find_client`. -/
def findClient (t : Transport) (uuid email : Text) (s : XrayState) : Option Client :=
  (s.clients t).find? (matchesFind uuid email)

/-- `remove_client`. -/
def removeClient (t : Transport) (uuid email : Text) (s : XrayState) : XrayState :=
  s.setClients t ((s.clients t).filter fun client => !matchesRemove uuid email client)

/-! ### The key table -/

def updateKey (id : ℕ) (f : VpnKey → VpnKey) (s : XrayState) : XrayState :=
  { s with keys := s.keys.map fun key => if key.id = id then f key else key }

def setStatus (id : ℕ) (status : VpnKeyStatus) (s : XrayState) : XrayState :=
  s.updateKey id fun key => { key with status := status }

/-- `mark_active`. -/
def markActive (id : ℕ) (s : XrayState) : XrayState :=
  s.updateKey id fun key =>
    if key.status = .pendingApply ∨ key.status = .applyFailed then { key with status := .active }
    else key

/-- `mark_revoked`. -/
def markRevoked (id : ℕ) (s : XrayState) : XrayState :=
  s.updateKey id fun key =>
    if key.status = .revoked ∨ key.status = .deleted then key
    else { key with status := .revoked }

def hardDelete (id : ℕ) (s : XrayState) : XrayState :=
  { s with keys := s.keys.filter fun key => key.id ≠ id }

/-- `list_by_type_statuses` for the Xray keys, all pages of it. -/
def listKeys (statuses : VpnKeyStatus → Bool) (s : XrayState) : List VpnKey :=
  s.keys.filter fun key => key.keyType = .xray && statuses key.status

/-- `find_by_uuid`. -/
def findByUuid (uuid : Text) (s : XrayState) : Option VpnKey :=
  s.keys.find? fun key => key.uuid = uuid

/-- `find_by_email_label`. -/
def findByEmailLabel (email : Text) (s : XrayState) : Option VpnKey :=
  s.keys.find? fun key => key.emailLabel = email

end XrayState

/-! ### The first pass: keys in a transition -/

/-- `XRAY_STARTUP_RECONCILE_STATUSES`. -/
def startupReconcileStatuses : VpnKeyStatus → Bool
  | .pendingApply | .applyFailed | .pendingRevoke | .pendingDelete | .deleteFailed => true
  | .active | .revoked | .deleted | .failed => false

/-- `_remove_xray_access`. -/
def removeXrayAccess (key : VpnKey) (s : XrayState) : XrayState :=
  s.removeClient key.transport key.uuid key.emailLabel

/-- `_startup_reconcile_key`. -/
def startupReconcileKey (s : XrayState) (key : VpnKey) : XrayState :=
  match key.status with
  | .pendingApply =>
    match s.findClient key.transport key.uuid key.emailLabel with
    | none => s.setStatus key.id .applyFailed
    | some _ => s.markActive key.id
  | .applyFailed =>
    match s.findClient key.transport key.uuid key.emailLabel with
    | none => s
    | some _ => s.markActive key.id
  | .pendingRevoke => (removeXrayAccess key s).markRevoked key.id
  | .pendingDelete | .deleteFailed => (removeXrayAccess key s).hardDelete key.id
  | .active | .revoked | .deleted | .failed => s

/-- The loop over the keys in a transition, in the order of their ids. -/
def startupReconcileKeys (s : XrayState) : XrayState :=
  (s.listKeys startupReconcileStatuses).foldl startupReconcileKey s

/-! ### The drift passes -/

/-- The exceptions. -/
inductive XrayError
  | cannotBeRestored
  | unsafeEmail
  | clientAlreadyExists
  deriving DecidableEq

/-- A method of the service. -/
abbrev XrayM := Program XrayState XrayError

/-- The turn of one key in `_remove_non_live_xray_clients`. -/
def removeNonLiveXrayClient (s : XrayState) (key : VpnKey) : XrayState :=
  if key.status = .active then s
  else
    match s.findClient key.transport key.uuid key.emailLabel with
    | none => s
    | some _ => removeXrayAccess key s

/-- `_remove_non_live_xray_clients`. -/
def removeNonLiveXrayClients (keys : List VpnKey) (s : XrayState) : XrayState :=
  keys.foldl removeNonLiveXrayClient s

/-- `_xray_client_owned_by_active_key` for the identities of the active keys. -/
def ownedByActiveKey (activeKeys : List VpnKey) (uuid email : Text) : Bool :=
  activeKeys.any fun key =>
    (!uuid.isEmpty && key.ownUuid = uuid) || (!email.isEmpty && key.ownEmail = email)

/-- `_find_xray_historical_owner`: by the UUID, else by the email. -/
def findXrayHistoricalOwner (uuid email : Text) (s : XrayState) : Option VpnKey :=
  let byUuid := if uuid.isEmpty then none else s.findByUuid uuid
  let key := match byUuid with
    | some key => some key
    | none => if email.isEmpty then none else s.findByEmailLabel email
  key.filter fun key => key.keyType = .xray

/-- The prefixes of `XRAY_MANAGED_LABEL_RE`. -/
def managedPrefixes : List String :=
  ["xray_", "xray_tcp_", "xray_http_base_", "xray_http_multi_", "xray_http_antisib_"]

/-- `XRAY_MANAGED_LABEL_RE.fullmatch`: a prefix and five ASCII letters or digits. -/
def isManagedLabel (label : Text) : Bool :=
  managedPrefixes.any fun p =>
    let rest := label.drop p.toList.length
    startsWith p.toList label && rest.length = 5 && rest.all Char.isAlphanum

/-- `_remove_or_degrade_xray_orphans` for the clients of an inbound; the number of failures. -/
def removeOrDegradeXrayOrphans (t : Transport) (activeKeys : List VpnKey) : List Client → XrayM ℕ
  | [] => return 0
  | client :: clients => do
    let uuid := strip client.id
    let email := strip client.email
    if ownedByActiveKey activeKeys uuid email then removeOrDegradeXrayOrphans t activeKeys clients
    else do
      let s ← get
      match findXrayHistoricalOwner uuid email s with
      | some historical =>
        if historical.status = .active then removeOrDegradeXrayOrphans t activeKeys clients
        else do
          modify (removeXrayAccess historical)
          removeOrDegradeXrayOrphans t activeKeys clients
      | none =>
        if isManagedLabel email then do
          modify (XrayState.removeClient t uuid email)
          removeOrDegradeXrayOrphans t activeKeys clients
        else return 1

/-- `add_client`. -/
def addClient (t : Transport) (uuid email : Text) : XrayM Unit := do
  if !isEmailSafe email then throw .unsafeEmail
  else do
    let s ← get
    match s.findClient t uuid email with
    | some _ => throw .clientAlreadyExists
    | none => modify fun s => s.setClients t (s.clients t ++ [⟨uuid, email⟩])

/-- `_restore_missing_active_xray_clients`. -/
def restoreMissingActiveXrayClients : List VpnKey → XrayM Unit
  | [] => return ()
  | key :: keys => do
    if key.ownUuid.isEmpty || key.ownEmail.isEmpty || key.shortId.isEmpty then
      throw .cannotBeRestored
    else do
      let s ← get
      match s.findClient key.transport key.ownUuid key.ownEmail with
      | none => do
        addClient key.transport key.ownUuid key.ownEmail
        restoreMissingActiveXrayClients keys
      | some _ => restoreMissingActiveXrayClients keys

/-- The orphan passes over the inbounds, up to the first failure. -/
def removeOrphansOf (activeKeys : List VpnKey) : List Transport → XrayM ℕ
  | [] => return 0
  | t :: ts => do
    let s ← get
    let failed ← removeOrDegradeXrayOrphans t activeKeys (s.clients t)
    if failed = 0 then removeOrphansOf activeKeys ts else return failed

/-- `_startup_reconcile_drift`; the number of failures. -/
def startupReconcileDrift : XrayM ℕ :=
  tryCatch
    (do
      let s ← get
      let activeKeys := s.listKeys (· = .active)
      modify (removeNonLiveXrayClients (s.listKeys fun _ => true))
      let failed ← removeOrphansOf activeKeys [.tcp, .http]
      if failed = 0 then do
        restoreMissingActiveXrayClients activeKeys
        return 0
      else return failed)
    fun _ => return 1

/-- `startup_reconcile`; the number of failures. -/
def startupReconcile : XrayM ℕ := do
  modify startupReconcileKeys
  startupReconcileDrift

end VpnBot.Xray
