import VpnBot.Python.Text
import VpnBot.System.Calls
import VpnBot.System.Rows
import VpnBot.System.Run

/-!
# SOCKS5 accesses

`src/services/socks5.py` over `src/adapters/dante_users.py`: an access is a row of `proxy_accesses` and a
Linux user with the login and the password of its payload.  The operations hold one lock while they work, so
a run of the service is a sequence of whole operations.  Every command may fail, before or after its effect
(a command that is killed at its timeout may have had it), and every write of the database may fail; a write
that fails is rolled back.

* `userExists`, `createUser`, `lockUser`, `deleteUser`: the adapter;
* `issue`, `revoke`, `delete`, `reconcile`: the operations;
* `Sound`: what the rows promise about the Linux users.

A row has the fields that these functions decide by.  Left out are the audit entries, the time at which an
access was shown, the health flag of the backend (part of `allowed`), and the unique index on the live
accesses of a user: a write that it refuses is one that fails.
-/

namespace VpnBot.Socks5

open Py Sys

/-! ### The state -/

inductive ProxyAccessStatus
  | pendingApply
  | active
  | applyFailed
  | pendingRevoke
  | revoked
  | revokeFailed
  | inactive
  | pendingDelete
  | deleteFailed
  | deleted
  deriving DecidableEq

/-- A row of `proxy_accesses` of the type `socks5`, with the login and the password of its payload. -/
structure ProxyAccess where
  id : ℕ
  ownerUserId : ℕ
  status : ProxyAccessStatus
  login : Text
  password : Text

/-- A Linux user.  `useradd` leaves a locked user without a password. -/
structure LinuxUser where
  locked : Bool
  password : Option Text
  deriving DecidableEq

/-- The rows, and the Linux user of every login. -/
structure State where
  accesses : Rows ProxyAccess ProxyAccess.id
  users : Text → Option LinuxUser

inductive Error
  | denied
  | notFound
  | invalidOperation
  | danteUser
  | danteUserNotFound
  | database
  deriving DecidableEq

/-- What happens to the status in a row. -/
def State.setRow (id : ℕ) (change : ProxyAccessStatus → ProxyAccessStatus) (s : State) : State :=
  { s with
    accesses := s.accesses.update id (fun row => { row with status := change row.status }) fun _ => rfl }

/-- What happens to the Linux user with a login. -/
def State.setUser (login : Text) (change : Option LinuxUser → Option LinuxUser) (s : State) : State :=
  { s with users := Function.update s.users login (change (s.users login)) }

/-- A statement with its commit. -/
def write (fails : Bool) (effect : State → State) : Program State Error Unit :=
  if fails then throw .database else modify effect

/-! ### The adapter -/

/-- The characters behind the first one of a login. -/
def isLoginChar (c : Char) : Bool := c.isAlphanum || c = '_'

/-- `_LOGIN_RE` matches. -/
def isLinuxLogin : Text → Bool
  | [] => false
  | c :: rest => (c.isAlpha || c = '_') && rest.length ≤ 31 && rest.all isLoginChar

/-- `_ensure_managed_login`. -/
def ensureManagedLogin (loginPrefix login : Text) : Program State Error Unit :=
  if loginPrefix.isPrefixOf login && isLinuxLogin login then pure () else throw .danteUser

/-- `_ensure_safe_password`. -/
def ensureSafePassword (password : Text) : Program State Error Unit :=
  if password.isEmpty || password.any (fun c => c = '\n' || c = '\r' || c = Char.ofNat 0 || c = ':') then
    throw .danteUser
  else pure ()

/-- `exists`; the lookup may fail. -/
def userExists (loginPrefix login : Text) (lookupFails : Bool) : Program State Error Bool := do
  ensureManagedLogin loginPrefix login
  if lookupFails then throw .danteUser else return ((← get).users login).isSome

/-- How the commands of `create_user` end. -/
structure CreateFaults where
  lookupFails : Bool
  useradd : Option CallFault
  chpasswd : Option CallFault

/-- How the commands of `lock_user` and `delete_user` end. -/
structure CommandFaults where
  lookupFails : Bool
  command : Option CallFault

/-- The commands of `create_user`. -/
def addUser (login password : Text) (faults : CreateFaults) : Program State Error Unit := do
  Program.call faults.useradd .danteUser (State.setUser login fun _ => some ⟨true, none⟩)
  Program.call faults.chpasswd .danteUser
    (State.setUser login fun user => user.map fun _ => ⟨false, some password⟩)

/-- `create_user`. -/
def createUser (loginPrefix login password : Text) (faults : CreateFaults) :
    Program State Error Unit := do
  ensureManagedLogin loginPrefix login
  ensureSafePassword password
  let found ← userExists loginPrefix login faults.lookupFails
  if found then throw .danteUser else addUser login password faults

/-- `lock_user`. -/
def lockUser (loginPrefix login : Text) (faults : CommandFaults) : Program State Error Unit := do
  let found ← userExists loginPrefix login faults.lookupFails
  if found then
    Program.call faults.command .danteUser
      (State.setUser login fun user => user.map fun u => { u with locked := true })
  else throw .danteUserNotFound

/-- `delete_user`. -/
def deleteUser (loginPrefix login : Text) (faults : CommandFaults) : Program State Error Unit := do
  let found ← userExists loginPrefix login faults.lookupFails
  if found then Program.call faults.command .danteUser (State.setUser login fun _ => none) else pure ()

/-! ### The repository -/

/-- `set_status`. -/
def setStatus (id : ℕ) (status : ProxyAccessStatus) (fails : Bool) : Program State Error Unit :=
  write fails (State.setRow id fun _ => status)

/-- `mark_active`: a row in another status stays as it is. -/
def markActive (id : ℕ) (fails : Bool) : Program State Error Unit :=
  write fails (State.setRow id fun status =>
    if status = .pendingApply ∨ status = .applyFailed then .active else status)

/-- `mark_revoked` and `mark_deleted`: an update of the rows in a status that it may leave, which raises
when there is none. -/
def markFinal (id : ℕ) (status : ProxyAccessStatus) (mayLeave : ProxyAccessStatus → Bool) (fails : Bool) :
    Program State Error Unit := do
  let s ← get
  match s.accesses.find? id with
  | some row =>
    if mayLeave row.status then write fails (State.setRow id fun _ => status) else throw .database
  | none => throw .database

/-- `mark_revoked`. -/
def markRevoked (id : ℕ) (fails : Bool) : Program State Error Unit :=
  markFinal id .revoked (fun status => status ≠ .revoked && status ≠ .deleted) fails

/-- `mark_deleted`. -/
def markDeleted (id : ℕ) (fails : Bool) : Program State Error Unit :=
  markFinal id .deleted (· ≠ .deleted) fails

/-- The row that `create` inserts. -/
def newAccess (s : State) (owner : ℕ) (login password : Text) : ProxyAccess :=
  ⟨s.accesses.next, owner, .pendingApply, login, password⟩

/-- `create`. -/
def createAccess (owner : ℕ) (login password : Text) (fails : Bool) : Program State Error ProxyAccess := do
  let s ← get
  write fails fun s => { s with accesses := s.accesses.insert (newAccess s owner login password) rfl }
  return newAccess s owner login password

/-- `find_by_socks5_login`: whether there is such a row. -/
def loginTaken (s : State) (login : Text) : Bool :=
  s.accesses.rows.any fun row => row.login = login && (row.status ≠ .deleted && row.status ≠ .inactive)

/-- `_active_access`: whether there is one. -/
def hasActiveAccess (s : State) (owner : ℕ) : Bool :=
  s.accesses.rows.any fun row => row.ownerUserId = owner && row.status = .active

/-! ### Issuing -/

/-- A random suffix, and whether the lookup of its login fails. -/
structure Draw where
  suffix : Text
  lookupFails : Bool

def loginOf (loginPrefix : Text) (owner : ℕ) (suffix : Text) : Text :=
  loginPrefix ++ natText owner ++ '_' :: suffix

/-- The loop of `_unique_login`. -/
def drawLogin (loginPrefix : Text) (owner : ℕ) : List Draw → Program State Error Text
  | [] => throw .invalidOperation
  | draw :: draws => do
    let login := loginOf loginPrefix owner draw.suffix
    let s ← get
    if loginTaken s login then drawLogin loginPrefix owner draws
    else do
      let found ← userExists loginPrefix login draw.lookupFails
      if found then drawLogin loginPrefix owner draws else return login

/-- `_unique_login`. -/
def uniqueLogin (loginPrefix : Text) (owner : ℕ) (draws : List Draw) : Program State Error Text :=
  if 32 < loginPrefix.length + (natText owner).length + 5 then throw .invalidOperation
  else drawLogin loginPrefix owner (draws.take 10)

/-- A call of `issue_socks5_proxy`: whether the checks in front of the row and in front of the commands
pass, what is drawn, and how the commands and the writes end. -/
structure IssueInput where
  owner : ℕ
  allowed : Bool
  allowedAtApply : Bool
  draws : List Draw
  password : Text
  createFails : Bool
  create : CreateFaults
  applyFailedFails : Bool
  markActiveFails : Bool
  compensateDelete : CommandFaults
  compensateLock : CommandFaults
  compensateFails : Bool

/-- The status after the compensation, when the user has been disabled. -/
def recordCompensation (access : ProxyAccess) (input : IssueInput) (disabled : Bool) :
    Program State Error Unit :=
  if disabled then do
    let _ ← Program.attempt (setStatus access.id .applyFailed input.compensateFails)
    pure ()
  else pure ()

/-- `_compensate_failed_create_after_apply`. -/
def compensateFailedCreateAfterApply (loginPrefix : Text) (access : ProxyAccess) (input : IssueInput) :
    Program State Error Unit := do
  let disabled ← Program.attempt
    (tryCatch (deleteUser loginPrefix access.login input.compensateDelete)
      fun _ => lockUser loginPrefix access.login input.compensateLock)
  recordCompensation access input disabled

/-- The last check, and the user. -/
def applyAccess (loginPrefix : Text) (access : ProxyAccess) (input : IssueInput) :
    Program State Error Unit :=
  if input.allowedAtApply then createUser loginPrefix access.login access.password input.create
  else throw .denied

/-- What follows the new row. -/
def applyNewAccess (loginPrefix : Text) (access : ProxyAccess) (input : IssueInput) :
    Program State Error Unit := do
  tryCatch (applyAccess loginPrefix access input) fun error => do
    setStatus access.id .applyFailed input.applyFailedFails
    throw error
  tryCatch (markActive access.id input.markActiveFails) fun error => do
    compensateFailedCreateAfterApply loginPrefix access input
    throw error

/-- The part of `issue_socks5_proxy` under the lock. -/
def issueNew (loginPrefix : Text) (input : IssueInput) : Program State Error Unit := do
  let login ← uniqueLogin loginPrefix input.owner input.draws
  let access ← createAccess input.owner login input.password input.createFails
  applyNewAccess loginPrefix access input

/-- `issue_socks5_proxy`. -/
def issue (loginPrefix : Text) (input : IssueInput) : Program State Error Unit := do
  let s ← get
  if !input.allowed then throw .denied
  else if hasActiveAccess s input.owner then pure ()
  else issueNew loginPrefix input

/-! ### Revoking and deleting -/

/-- A call of `revoke_socks5_proxy` or `delete_socks5_proxy`: the row, whether the checks pass, and how the
command and the writes end; `failedFails` is the write after a failed command. -/
structure EndInput where
  accessId : ℕ
  allowed : Bool
  pendingFails : Bool
  command : CommandFaults
  failedFails : Bool
  finalFails : Bool

/-- `revoke_socks5_proxy` of an access that is not revoked yet. -/
def revokeAccess (loginPrefix : Text) (access : ProxyAccess) (input : EndInput) :
    Program State Error Unit := do
  setStatus access.id .pendingRevoke input.pendingFails
  tryCatch (if access.login.isEmpty then pure () else lockUser loginPrefix access.login input.command)
    fun error =>
      if error = .danteUserNotFound then pure ()
      -- The access gets back the status that it had.
      else do
        setStatus access.id access.status input.failedFails
        throw error
  markRevoked access.id input.finalFails

/-- `revoke_socks5_proxy`. -/
def revoke (loginPrefix : Text) (input : EndInput) : Program State Error Unit := do
  let s ← get
  match s.accesses.find? input.accessId with
  | none => throw .notFound
  | some access =>
    if access.status = .revoked ∨ access.status = .inactive ∨ access.status = .deleted then pure ()
    else if !input.allowed then throw .denied
    else revokeAccess loginPrefix access input

/-- `delete_socks5_proxy` of an access that is not deleted yet. -/
def deleteAccess (loginPrefix : Text) (access : ProxyAccess) (input : EndInput) :
    Program State Error Unit := do
  setStatus access.id .pendingDelete input.pendingFails
  tryCatch (if access.login.isEmpty then pure () else deleteUser loginPrefix access.login input.command)
    fun error => do
      setStatus access.id .deleteFailed input.failedFails
      throw error
  markDeleted access.id input.finalFails

/-- `delete_socks5_proxy`. -/
def delete (loginPrefix : Text) (input : EndInput) : Program State Error Unit := do
  let s ← get
  match s.accesses.find? input.accessId with
  | none => throw .notFound
  | some access =>
    if access.status = .deleted then pure ()
    else if !input.allowed then throw .denied
    else deleteAccess loginPrefix access input

/-! ### Startup -/

/-- How the commands and the write for one access end. -/
structure ReconcileFaults where
  lookupFails : Bool
  command : CommandFaults
  writeFails : Bool

/-- A command for a user that was found; it may be gone by now. -/
def unlessGone (found : Bool) (command : Program State Error Unit) : Program State Error Unit :=
  if found then
    tryCatch command fun error => if error = .danteUserNotFound then pure () else throw error
  else pure ()

/-- `_startup_reconcile_access`, of a user that was looked up. -/
def reconcileFound (loginPrefix : Text) (access : ProxyAccess) (faults : ReconcileFaults) (found : Bool) :
    Program State Error Unit :=
  match access.status with
  | .pendingApply | .applyFailed =>
    if found then markActive access.id faults.writeFails
    else if access.status = .applyFailed then pure ()
    else setStatus access.id .applyFailed faults.writeFails
  | .pendingRevoke => do
    unlessGone found (lockUser loginPrefix access.login faults.command)
    markRevoked access.id faults.writeFails
  | .pendingDelete | .deleteFailed => do
    unlessGone found (deleteUser loginPrefix access.login faults.command)
    markDeleted access.id faults.writeFails
  | _ => pure ()

/-- `_startup_reconcile_access`. -/
def startupReconcileAccess (loginPrefix : Text) (access : ProxyAccess) (faults : ReconcileFaults) :
    Program State Error Unit :=
  if access.login.isEmpty then pure ()
  else do
    let found ← userExists loginPrefix access.login faults.lookupFails
    reconcileFound loginPrefix access faults found

/-- `SOCKS5_STARTUP_RECONCILE_STATUSES`. -/
def startupReconcileStatuses : List ProxyAccessStatus :=
  [.pendingApply, .applyFailed, .pendingRevoke, .pendingDelete, .deleteFailed]

/-- A page of `list_by_type_statuses`. -/
def reconcilePage (s : State) (lastId : ℕ) : List ProxyAccess :=
  (s.accesses.rows.filter fun row => startupReconcileStatuses.contains row.status && lastId < row.id).take 500

/-- The accesses of a page; an exception is logged only. -/
def reconcileAccesses (loginPrefix : Text) (faults : ℕ → ReconcileFaults) :
    List ProxyAccess → Program State Error Unit
  | [] => pure ()
  | access :: accesses => do
    let _ ← Program.attempt (startupReconcileAccess loginPrefix access (faults access.id))
    reconcileAccesses loginPrefix faults accesses

/-- The loop over the pages.  Every page moves `last_id`, so the ids of all rows are enough rounds. -/
def reconcileLoop (loginPrefix : Text) (faults : ℕ → ReconcileFaults) : ℕ → ℕ → Program State Error Unit
  | 0, _ => pure ()
  | rounds + 1, lastId => do
    let s ← get
    match (reconcilePage s lastId).getLast? with
    | none => pure ()
    | some last => do
      reconcileAccesses loginPrefix faults (reconcilePage s lastId)
      reconcileLoop loginPrefix faults rounds last.id

/-- `reconcile_socks5_state`. -/
def reconcile (loginPrefix : Text) (faults : ℕ → ReconcileFaults) : Program State Error Unit := do
  let s ← get
  reconcileLoop loginPrefix faults s.accesses.next 0

/-! ### The system -/

inductive Action
  | issue (input : IssueInput)
  | revoke (input : EndInput)
  | delete (input : EndInput)
  | reconcile (faults : ℕ → ReconcileFaults)

/-- The operation that an action starts. -/
def operation (loginPrefix : Text) : Action → Program State Error Unit
  | .issue input => issue loginPrefix input
  | .revoke input => revoke loginPrefix input
  | .delete input => delete loginPrefix input
  | .reconcile faults => reconcile loginPrefix faults

/-- One operation; how it ends is up to its caller. -/
def step (loginPrefix : Text) (s : State) (action : Action) : Option State :=
  some (Program.result (operation loginPrefix action) s).2

/-- No access has been issued yet. -/
def start (users : Text → Option LinuxUser) : State := ⟨Rows.empty, users⟩

/-- What the status of an access promises about its Linux user. -/
def Promised (status : ProxyAccessStatus) (password : Text) (user : Option LinuxUser) : Prop :=
  (status = .active → user = some ⟨false, some password⟩) ∧
    (status = .revoked ∨ status = .deleted → ∀ u, user = some u → u.locked = true)

/-- An active access has its user, unlocked and with its password; a revoked or deleted one has no unlocked
user. -/
def Sound (s : State) : Prop :=
  ∀ access ∈ s.accesses.rows, Promised access.status access.password (s.users access.login)

end VpnBot.Socks5
