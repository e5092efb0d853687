import VpnBot.MtProxy.DirectApply
import VpnBot.Socks5.Service

/-!
# The managed MTProto accesses

`src/services/mtproto.py` over `src/repositories/proxy_accesses.py` and the adapter: an access is a row of
`proxy_accesses`, and its secret gets to the proxy with an apply of the secrets of all active accesses.  The
operations hold one lock while they work, so a run of the service is a sequence of whole operations; only a deletion
is two of them, the revocation and the mark that follows it.

* `issueManaged`, `revoke`, `beginDelete`, `finishDelete`, `reconcile`: the operations, and `issueStatic`, which holds
  no lock of the adapter but only inserts a row of the other mode;
* `Promises`: what the rows promise about the files of the adapter.

The adapter applies directly, without the helper, and a run starts from files without accesses.
Every write of the database may fail, and every call of an apply (`MtProxy.Answers`); a write that fails is rolled
back.  A row has the fields that these functions decide by.  Left out are the audit entries, the time at which an
access was shown and the links, the generation of the last apply, and the unique index on the live accesses of a user:
a write that it refuses is one that fails.  A row has its fingerprint in the column, where `create` puts it.
-/

namespace VpnBot.MtProto

open Py Sys MtProxy

open Socks5 (ProxyAccessStatus)

/-! ### The state -/

/-- `_access_mode`. -/
inductive Mode
  | static
  | managed
  deriving DecidableEq

/-- A row of `proxy_accesses` of the type `mtproto`, with the mode and the secret of its payload. -/
structure ProxyAccess where
  id : ℕ
  ownerUserId : ℕ
  status : ProxyAccessStatus
  mode : Mode
  secret : Text
  secretFingerprint : Text
  deriving DecidableEq

/-- The rows, the files of the adapter, whether the backend refuses mutations, and the accesses that
`delete_mtproto_proxy` has still to mark. -/
structure State where
  accesses : Rows ProxyAccess ProxyAccess.id
  files : Files
  degraded : Bool
  deleting : List ℕ

inductive Error
  | denied
  | notFound
  | invalidOperation
  | apply
  | database
  deriving DecidableEq

/-- The interpreter, the adapter, and whether it goes back after a failed apply. -/
structure Backend where
  interpreter : Interpreter
  adapter : Adapter
  rollback : Bool

/-- `mtproto_secret_fingerprint`. -/
def mtprotoSecretFingerprint (secret : Text) : Text := (Sha256.hexdigest secret).take 16

/-- `MTPROTO_ACCESS_MAY_EXIST_STATUSES`. -/
def mtprotoAccessMayExistStatuses : List ProxyAccessStatus :=
  [.active, .pendingApply, .applyFailed, .pendingRevoke, .revokeFailed, .pendingDelete, .deleteFailed]

/-- `MTPROTO_STARTUP_RECONCILE_STATUSES`. -/
def mtprotoStartupReconcileStatuses : List ProxyAccessStatus :=
  [.pendingApply, .applyFailed, .pendingRevoke, .revokeFailed, .pendingDelete, .deleteFailed]

/-- The statuses in which `_revoke_mtproto_proxy` has nothing to do. -/
def ended : List ProxyAccessStatus := [.revoked, .inactive, .deleted]

def State.setRow (id : ℕ) (change : ProxyAccess → ProxyAccess) (hchange : ∀ row, (change row).id = row.id) (s : State) :
    State :=
  { s with accesses := s.accesses.update id change hchange }

/-- `mark_degraded`. -/
def markDegraded : Program State Error Unit := modify fun s => { s with degraded := true }

/-- A statement with its commit. -/
def write (fails : Bool) (effect : State → State) : Program State Error Unit :=
  if fails then throw .database else modify effect

/-! ### The repository -/

/-- The row that `create` inserts. -/
def newAccess (s : State) (owner : ℕ) (status : ProxyAccessStatus) (mode : Mode) (secret : Text) : ProxyAccess :=
  ⟨s.accesses.next, owner, status, mode, secret, mtprotoSecretFingerprint secret⟩

/-- `create`; the owner and the new key must be integers of SQLite. -/
def createAccess (owner : ℕ) (status : ProxyAccessStatus) (mode : Mode) (secret : Text) (fails : Bool) :
    Program State Error ProxyAccess := do
  let s ← get
  if maxInteger < owner ∨ maxInteger < s.accesses.next then throw .database
  else do
    write fails fun s => { s with accesses := s.accesses.insert (newAccess s owner status mode secret) rfl }
    return newAccess s owner status mode secret

/-- `set_status`. -/
def setStatus (id : ℕ) (status : ProxyAccessStatus) (fails : Bool) : Program State Error Unit :=
  write fails (State.setRow id (fun row => { row with status := status }) fun _ => rfl)

/-- What `mark_active` does with a row; one in another status stays as it is. -/
def activated (secret : Text) (row : ProxyAccess) : ProxyAccess :=
  if row.status = .pendingApply ∨ row.status = .applyFailed then { row with status := .active, secret := secret }
  else row

theorem activated_id (secret : Text) (row : ProxyAccess) : (activated secret row).id = row.id := by
  unfold activated
  split_ifs <;> rfl

/-- `mark_active`, with the secret of the payload. -/
def markActive (id : ℕ) (secret : Text) (fails : Bool) : Program State Error Unit :=
  write fails (State.setRow id (activated secret) (activated_id secret))

/-- `mark_revoked`, `mark_inactive` and `mark_deleted`: an update of the rows in a status that it may leave, which
raises when there is none. -/
def markEnded (id : ℕ) (status : ProxyAccessStatus) (stays : List ProxyAccessStatus) (fails : Bool) :
    Program State Error Unit := do
  let s ← get
  match s.accesses.find? id with
  | some row => if row.status ∈ stays then throw .database else setStatus id status fails
  | none => throw .database

/-- `mark_revoked`. -/
def markRevoked (id : ℕ) (fails : Bool) : Program State Error Unit :=
  markEnded id .revoked [.revoked, .deleted] fails

/-- `mark_inactive`. -/
def markInactive (id : ℕ) (fails : Bool) : Program State Error Unit :=
  markEnded id .inactive [.inactive, .revoked, .deleted] fails

/-- `mark_deleted`. -/
def markDeleted (id : ℕ) (fails : Bool) : Program State Error Unit := markEnded id .deleted [.deleted] fails

/-- `find_by_secret_fingerprint`: whether there is such a row. -/
def fingerprintTaken (s : State) (fingerprint : Text) : Bool :=
  s.accesses.rows.any fun row =>
    row.secretFingerprint = fingerprint && (row.status ≠ .deleted && row.status ≠ .inactive)

/-! ### The accesses and their secrets -/

/-- `_active_access`: whether there is one. -/
def hasActiveAccess (s : State) (owner : ℕ) : Bool :=
  s.accesses.rows.any fun row => row.ownerUserId = owner && row.status = .active

/-- `_managed_accesses_by_statuses`, the pages of `list_by_type_statuses`.  Every page moves `last_id`, so the ids of
all rows are enough rounds. -/
def managedAccessesByStatuses (statuses : List ProxyAccessStatus) (s : State) : List ProxyAccess :=
  s.accesses.pages (fun row => statuses.contains row.status) 500 s.accesses.next 0

/-- `_active_managed_accesses`. -/
def activeManagedAccesses (s : State) : List ProxyAccess :=
  (managedAccessesByStatuses [.active] s).filter fun access => access.mode = .managed

/-- `_access_secret` of a managed access. -/
def accessSecret (access : ProxyAccess) : Except Error Text :=
  if access.secret.isEmpty then .error .invalidOperation else .ok access.secret

def ProxyAccess.item (access : ProxyAccess) : ManagedSecret :=
  ⟨access.secret, access.secretFingerprint, some access.ownerUserId, some access.id⟩

/-- `_managed_secrets_from_accesses`. -/
def managedSecretsFromAccesses : List ProxyAccess → Except Error (List ManagedSecret)
  | [] => .ok []
  | access :: accesses =>
    if access.mode ≠ .managed then managedSecretsFromAccesses accesses
    else do
      let secret ← accessSecret access
      if access.secretFingerprint ≠ mtprotoSecretFingerprint secret then .error .invalidOperation
      else
        let rest ← managedSecretsFromAccesses accesses
        return ⟨secret, access.secretFingerprint, some access.ownerUserId, some access.id⟩ :: rest

/-- `_desired_managed_secrets`. -/
def desiredManagedSecrets (extra : Option ProxyAccess) (exclude : Option ℕ) :
    Program State Error (List ManagedSecret) :=
  Program.ofExcept fun s =>
    managedSecretsFromAccesses
      ((activeManagedAccesses s ++ extra.toList).filter fun access => !exclude.any (· = access.id))

variable (b : Backend)

/-- `_read_all_runtime_managed_secrets`, from what the two readers give. -/
def allManagedSecrets (config runtime : List ManagedSecret) : List ManagedSecret :=
  distinctBy ManagedSecret.fingerprint [] ((config ++ runtime).filter fun item => item.fingerprint ≠ emptyPlaceholder)

/-- `_read_all_runtime_managed_secrets`. -/
def readAllRuntimeManagedSecrets : Program State Error (List ManagedSecret) :=
  Program.ofExcept fun s => do
    let config ← (readCurrentManagedSecrets b.interpreter s.files.secrets).mapError fun _ => Error.apply
    let runtime ← (readRuntimeManagedSecrets b.interpreter s.files.secrets).mapError fun _ => Error.apply
    return allManagedSecrets config runtime

/-- `ensure_managed_runtime_ready`; `ready` says whether the wrapper and the permissions are in order. -/
def ensureManagedRuntimeReady (ready : Bool) : Program State Error Unit :=
  Program.ofExcept fun s =>
    match s.files with
    | ⟨some text, some _⟩ =>
      if !ready then .error .apply
      else do
        let _ ← (readStoreDocument b.interpreter (some text)).mapError fun _ => Error.apply
        return ()
    | _ => .error .apply

/-- `apply_managed_secrets`, on the files of the state. -/
def applySecrets (answers : Answers) (desired : List ManagedSecret) : Program State Error Unit := do
  let _ ← Program.zoom State.files (fun files s => { s with files := files }) (fun _ => Error.apply)
    (applyManagedSecrets b.interpreter b.adapter b.rollback answers desired)
  return ()

/-- The secrets of the accesses, and their apply. -/
def applyDesired (extra : Option ProxyAccess) (exclude : Option ℕ) (answers : Answers) : Program State Error Unit := do
  let desired ← desiredManagedSecrets extra exclude
  applySecrets b answers desired

/-! ### Issuing -/

/-- The loop of `_unique_managed_secret` over what `token_hex` gives. -/
def drawSecret (storeFingerprints : List Text) : List Text → Program State Error Text
  | [] => throw .invalidOperation
  | secret :: draws => do
    let s ← get
    if mtprotoSecretFingerprint secret ∈ storeFingerprints then drawSecret storeFingerprints draws
    else if fingerprintTaken s (mtprotoSecretFingerprint secret) then drawSecret storeFingerprints draws
    else return secret

/-- `_unique_managed_secret`. -/
def uniqueManagedSecret (draws : List Text) : Program State Error Text := do
  let items ← readAllRuntimeManagedSecrets b
  drawSecret (items.map ManagedSecret.fingerprint) (draws.take 20)

/-- A call of `issue_mtproto_proxy` in the managed mode: whether the checks pass, what is drawn, and how the writes
and the applies end. -/
structure IssueInput where
  owner : ℕ
  allowed : Bool
  ready : Bool
  draws : List Text
  createFails : Bool
  apply : Answers
  applyFailedFails : Bool
  markActiveFails : Bool
  compensate : Answers
  compensateFails : Bool

/-- `_compensate_failed_managed_create_after_apply`. -/
def compensateFailedManagedCreateAfterApply (access : ProxyAccess) (input : IssueInput) :
    Program State Error Unit := do
  let removed ← Program.attempt (applyDesired b none (some access.id) input.compensate)
  if removed then do
    let _ ← Program.attempt (setStatus access.id .applyFailed input.compensateFails)
    pure ()
  else markDegraded

/-- What follows the new row. -/
def applyNewAccess (access : ProxyAccess) (input : IssueInput) : Program State Error Unit := do
  tryCatch (applyDesired b (some access) none input.apply) fun error => do
    setStatus access.id .applyFailed input.applyFailedFails
    throw error
  tryCatch (markActive access.id access.secret input.markActiveFails) fun error => do
    compensateFailedManagedCreateAfterApply b access input
    throw error

/-- The part of `_issue_managed` behind its checks. -/
def issueNew (input : IssueInput) : Program State Error Unit := do
  ensureManagedRuntimeReady b input.ready
  let secret ← uniqueManagedSecret b input.draws
  let access ← createAccess input.owner .pendingApply .managed secret input.createFails
  applyNewAccess b access input

/-- `issue_mtproto_proxy` in the managed mode. -/
def issueManaged (input : IssueInput) : Program State Error Unit := do
  let s ← get
  if !input.allowed || s.degraded then throw .denied
  else if hasActiveAccess s input.owner then pure ()
  else issueNew b input

/-- A call of `issue_mtproto_proxy` in the static mode, with `MTPROTO_SECRET`. -/
structure StaticInput where
  owner : ℕ
  allowed : Bool
  secret : Text
  createFails : Bool

/-- `issue_mtproto_proxy` in the static mode. -/
def issueStatic (input : StaticInput) : Program State Error Unit := do
  let s ← get
  if !input.allowed || s.degraded then throw .denied
  else if hasActiveAccess s input.owner then pure ()
  else do
    let _ ← createAccess input.owner .active .static input.secret input.createFails
    pure ()

/-! ### Revoking and deleting -/

/-- A call of `revoke_mtproto_proxy`: the row, whether the caller may make it, and how the writes and the apply end;
`failedFails` is the write after a failed apply. -/
structure RevokeInput where
  accessId : ℕ
  allowed : Bool
  ready : Bool
  pendingFails : Bool
  apply : Answers
  failedFails : Bool
  finalFails : Bool

/-- `_revoke_managed`. -/
def revokeManaged (access : ProxyAccess) (input : RevokeInput) : Program State Error Unit := do
  ensureManagedRuntimeReady b input.ready
  setStatus access.id .pendingRevoke input.pendingFails
  tryCatch (applyDesired b none (some access.id) input.apply) fun error => do
    setStatus access.id .revokeFailed input.failedFails
    throw error
  markRevoked access.id input.finalFails

/-- `revoke_mtproto_proxy`; of a static access the shared secret stays. -/
def revoke (input : RevokeInput) : Program State Error Unit := do
  let s ← get
  match s.accesses.find? input.accessId with
  | none => throw (if input.allowed then .notFound else .denied)
  | some access =>
    if !input.allowed then throw .denied
    else if access.status ∈ ended then pure ()
    else if s.degraded then throw .denied
    else if access.mode = .static then markInactive access.id input.finalFails
    else revokeManaged b access input

/-- `delete_mtproto_proxy` up to the second lock; a deleted access is left alone. -/
def beginDelete (input : RevokeInput) : Program State Error Unit := do
  revoke b input
  let s ← get
  match s.accesses.find? input.accessId with
  | none => throw .notFound
  | some access =>
    if access.status = .deleted then pure ()
    else modify fun s => { s with deleting := input.accessId :: s.deleting }

/-- `delete_mtproto_proxy` from the second lock on.  It has asked for the health of the proxy before it waits for the
lock, so nothing is asked here; when that is refused no row is changed, as when the write fails. -/
def finishDelete (accessId : ℕ) (fails : Bool) : Program State Error Unit := do
  modify fun s => { s with deleting := s.deleting.erase accessId }
  markDeleted accessId fails

/-! ### Startup -/

/-- How the applies and the writes for one access end. -/
structure ReconcileFaults where
  apply : Answers
  writeFails : Bool
  compensateFails : Bool

/-- A call of `reconcile_mtproto_state`. -/
structure ReconcileInput where
  ready : Bool
  faults : ℕ → ReconcileFaults
  repair : Answers

/-- `_compensate_failed_startup_pending_apply`. -/
def compensateFailedStartupPendingApply (access : ProxyAccess) (faults : ReconcileFaults) :
    Program State Error Unit := do
  let removed ← Program.attempt (applyDesired b none (some access.id) faults.apply)
  if removed then do
    let marked ← Program.attempt (setStatus access.id .applyFailed faults.compensateFails)
    if marked then pure () else markDegraded
  else markDegraded

/-- `_startup_reconcile_pending_apply`; of two secrets with one fingerprint the last counts. -/
def startupReconcilePendingApply (access : ProxyAccess) (store : List ManagedSecret) (faults : ReconcileFaults) :
    Program State Error Unit :=
  match store.reverse.find? fun item => item.fingerprint = access.secretFingerprint with
  | none => setStatus access.id .applyFailed faults.writeFails
  | some item =>
    if mtprotoSecretFingerprint item.secret ≠ access.secretFingerprint then throw .invalidOperation
    else do
      let marked ← Program.attempt (markActive access.id item.secret faults.writeFails)
      if marked then pure () else compensateFailedStartupPendingApply b access faults

/-- `_startup_complete_managed_removal`. -/
def startupCompleteManagedRemoval (access : ProxyAccess) (delete : Bool) (faults : ReconcileFaults) :
    Program State Error Unit := do
  applyDesired b none none faults.apply
  if delete then markDeleted access.id faults.writeFails else markRevoked access.id faults.writeFails

/-- `_startup_reconcile_managed_access`: whether something has changed. -/
def startupReconcileManagedAccess (access : ProxyAccess) (store : List ManagedSecret) (faults : ReconcileFaults) :
    Program State Error Bool :=
  match access.status with
  | .pendingApply => do
    startupReconcilePendingApply b access store faults
    return true
  | .pendingRevoke | .revokeFailed => do
    startupCompleteManagedRemoval b access false faults
    return true
  | .pendingDelete | .deleteFailed => do
    startupCompleteManagedRemoval b access true faults
    return true
  | _ => return false

/-- The loop over the accesses; after a change the secrets are read again. -/
def reconcileAccesses (faults : ℕ → ReconcileFaults) :
    List ProxyAccess → List ManagedSecret → Program State Error (List ManagedSecret)
  | [], store => return store
  | access :: accesses, store => do
    let changed ← startupReconcileManagedAccess b access store (faults access.id)
    if changed then do
      let store ← readAllRuntimeManagedSecrets b
      reconcileAccesses faults accesses store
    else reconcileAccesses faults accesses store

/-- No fingerprint is missing in the store, and none is left over. -/
def sameFingerprints (store desired : List ManagedSecret) : Bool :=
  desired.all (fun item => item.fingerprint ∈ store.map ManagedSecret.fingerprint) &&
    store.all fun item => item.fingerprint ∈ desired.map ManagedSecret.fingerprint

/-- The part of `reconcile_mtproto_state` that may raise. -/
def reconcileSecrets (input : ReconcileInput) : Program State Error Unit := do
  ensureManagedRuntimeReady b input.ready
  let store ← readAllRuntimeManagedSecrets b
  let s ← get
  let pending := (managedAccessesByStatuses mtprotoStartupReconcileStatuses s).filter fun access =>
    access.mode = .managed
  let store ← reconcileAccesses b input.faults pending store
  let desired ← desiredManagedSecrets none none
  if sameFingerprints store desired then pure () else applySecrets b input.repair desired

/-- `reconcile_mtproto_state`: whether nothing was fatal; an exception degrades the backend. -/
def reconcile (input : ReconcileInput) : Program State Error Bool := do
  let done ← Program.attempt (reconcileSecrets b input)
  if done then return true
  else do
    markDegraded
    return false

/-! ### The system -/

inductive Action
  | issueManaged (input : IssueInput)
  | issueStatic (input : StaticInput)
  | revoke (input : RevokeInput)
  | beginDelete (input : RevokeInput)
  | finishDelete (accessId : ℕ) (fails : Bool)
  | reconcile (input : ReconcileInput)
  | setHealth (degraded : Bool)

/-- The operation that an action starts. -/
def operation : Action → Program State Error Unit
  | .issueManaged input => issueManaged b input
  | .issueStatic input => issueStatic input
  | .revoke input => revoke b input
  | .beginDelete input => beginDelete b input
  | .finishDelete accessId fails => finishDelete accessId fails
  | .reconcile input => do
    let _ ← reconcile b input
    pure ()
  | .setHealth degraded => modify fun s => { s with degraded := degraded }

/-- One operation, how it ends is up to its caller; a deletion is finished after it has begun. -/
def step (s : State) (action : Action) : Option State :=
  match action with
  | .finishDelete accessId _ =>
    if accessId ∈ s.deleting then some (Program.result (operation b action) s).2 else none
  | action => some (Program.result (operation b action) s).2

/-- No access has been issued yet. -/
def start (files : Files) : State := ⟨Rows.empty, files, false, []⟩

/-- What the rows promise about the secrets in the files: an active access has its secret there, and every secret is
the one of an access that may exist. -/
structure Promises (s : State) (items : List ManagedSecret) : Prop where
  served : ∀ access ∈ s.accesses.rows, access.mode = .managed → access.status = .active → access.item ∈ items
  known : ∀ item ∈ items, ∃ access ∈ s.accesses.rows, access.mode = .managed ∧
    access.status ∈ mtprotoAccessMayExistStatuses ∧ access.item = item

end VpnBot.MtProto
