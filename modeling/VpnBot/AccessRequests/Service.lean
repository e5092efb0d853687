import VpnBot.System.Rows
import VpnBot.System.Tasks
import VpnBot.Users.Roles

/-!
# Access requests

`AccessApprovalService` of `src/services/access_approval.py` with the statements of
`src/repositories/access_requests.py`, and the methods of `src/services/users.py` that write a role, one
step for each place where a call waits.  A `db.transaction()` holds the lock of the database from its first
statement on, and no other statement runs meanwhile, so that its body is taken as a whole when it ends;
the clock is read before that, as it is by `block_user` before its statement waits for the lock.

A time is in seconds since 1970, as `ClockProvider` reads it without microseconds.  What is kept besides the
tables: the requests whose decisions were committed, and for each user the key of the next request at the
last `BLOCKED_USER` that `block_user` wrote; the requests with smaller keys were committed before.

Not modelled: the name that a request carries, who decided it and when, the audit log and the state of the
dialogue.  What `block_user` revokes after its write changes no role.
-/

namespace VpnBot

open Sys Program

namespace Users.UserService

/-- `reject_access_request_user`: the user, and that the role did not change. -/
def rejectAccessRequestUser (fault : Fault) (actor target : ℤ) : UserM (Option User × Bool) := do
  let _ ← requireModeratorOrAdmin fault actor
  match ← call fault .getTarget (UserRepository.getById target) with
  | none => pure (none, false)
  | some user =>
    if user.role = .superadmin ∨ user.role = .moderator ∨ user.role = .approvedUser ∨
        isBlockedUser user = true then pure (some user, false)
    else do
      refuse (user.role ≠ .pendingUser)
        (.invalidOperation "Нельзя отклонить пользователя в текущей роли")
      pure (some user, false)

/-- The checks of `block_user` under the lock of the user, before it reads the clock. -/
def checkBlock (adminIds : List ℤ) (fault : Fault) (actorUser : User) (target : ℤ) : UserM Unit := do
  refuse (target ∈ adminIds) (.invalidOperation "Нельзя заблокировать superadmin из ADMIN_IDS")
  let targetUser ← getUser fault .getTarget target
  refuse (targetUser.role = .superadmin) (.invalidOperation "Нельзя заблокировать superadmin")
  refuse (actorUser.role = .moderator && targetUser.role = .moderator)
    (.accessDenied "Модератор не может заблокировать другого модератора")

/-- The checks of `unblock_user` after the one of the actor. -/
def checkUnblock (adminIds : List ℤ) (fault : Fault) (target : ℤ) : UserM Unit := do
  refuse (target ∈ adminIds) (.invalidOperation "Нельзя изменить роль superadmin из ADMIN_IDS")
  let targetUser ← getUser fault .getTarget target
  refuse (targetUser.role = .superadmin) (.invalidOperation "Нельзя изменить роль superadmin")

/-- The checks of `set_role` after the one of the actor. -/
def checkSetRole (adminIds : List ℤ) (fault : Fault) (target : ℤ) (role : UserRole) : UserM Unit := do
  refuse (role = .blockedUser)
    (.invalidOperation "Для блокировки используйте block_user, чтобы отозвать доступ")
  refuse (target ∈ adminIds && role ≠ .superadmin)
    (.invalidOperation "Нельзя изменить роль superadmin из ADMIN_IDS")
  let current ← getUser fault .getTarget target
  refuse (current.role = .superadmin && role ≠ .superadmin)
    (.invalidOperation "Нельзя изменить роль superadmin")

/-- The transaction of `set_role` and of `unblock_user`. -/
def assignRole (fault : Fault) (target : ℤ) (role : UserRole) : UserM Unit :=
  transaction do
    call fault .setRole (UserRepository.setRole target role none)
    call fault .writeAudit (pure ())

end Users.UserService

namespace AccessRequests

open Users

/-! ### Tables -/

/-- `AccessRequestStatus`. -/
inductive AccessRequestStatus
  | pending
  | approved
  | rejected
  deriving DecidableEq

/-- A row of `access_requests`. -/
structure AccessRequest where
  id : ℕ
  telegramUserId : ℤ
  status : AccessRequestStatus
  requestedAt : ℤ
  deriving DecidableEq

abbrev Requests := Rows AccessRequest AccessRequest.id

/-- The tables that the service works on. -/
structure Tables where
  users : UserTable
  requests : Requests

/-- What a method of the service raises. -/
inductive RequestError
  | users (error : UserError)
  | notFound
  /-- `idx_access_requests_one_pending` refuses a row. -/
  | pendingExists
  /-- An awaited call raises. -/
  | raised

/-- The awaited calls of the service that are no methods of `UserService`. -/
inductive RequestCall
  | getPending
  | create
  | getRequest
  | setStatus
  | writeAudit
  | getRefreshed
  deriving DecidableEq

/-- The calls that raise in a transaction; what they wrote before is rolled back with the rest. -/
structure Faults where
  users : Fault
  requests : Option RequestCall

/-- No call raises. -/
def Faults.none : Faults := ⟨.none, .none⟩

abbrev TablesM := Program Tables RequestError

variable {α : Type}

/-- A method of `UserService`. -/
def onUsers (p : UserM α) : TablesM α :=
  zoom Tables.users (fun users t => { t with users }) RequestError.users p

/-- An awaited call of the service. -/
def await (faults : Faults) (c : RequestCall) (p : TablesM α) : TablesM α :=
  if faults.requests = some c then throw .raised else p

/-- `if condition: …`. -/
def onlyIf (condition : Bool) (p : TablesM Unit) : TablesM Unit := if condition then p else pure ()

/-! ### The repository -/

namespace AccessRequestRepository

/-- The pending requests of a user. -/
def pendingOf (requests : Requests) (user : ℤ) : List AccessRequest :=
  requests.rows.filter fun r => r.telegramUserId = user && r.status = .pending

/-- `get_by_id`. -/
def getById (request : ℕ) : TablesM (Option AccessRequest) :=
  (fun t : Tables => t.requests.find? request) <$> get

/-- `get_pending_for_user`: `ORDER BY requested_at DESC LIMIT 1`. -/
def getPendingForUser (user : ℤ) : TablesM (Option AccessRequest) :=
  (fun t : Tables => (pendingOf t.requests user).maxOn? AccessRequest.requestedAt) <$> get

/-- `create`. -/
def create (user now : ℤ) : TablesM AccessRequest := do
  let t ← get
  if (pendingOf t.requests user).isEmpty then do
    set { t with requests := t.requests.insert ⟨t.requests.next, user, .pending, now⟩ rfl }
    pure ⟨t.requests.next, user, .pending, now⟩
  else throw .pendingExists

/-- `create_pending_idempotent`. -/
def createPendingIdempotent (faults : Faults) (user now : ℤ) : TablesM (AccessRequest × Bool) :=
  tryCatch ((·, true) <$> await faults .create (create user now)) fun
    | .pendingExists => do
      match ← await faults .getPending (getPendingForUser user) with
      | none => throw .pendingExists
      | some pending => pure (pending, false)
    | error => throw error

/-- `set_status_if_pending`. -/
def setStatusIfPending (request : ℕ) (status : AccessRequestStatus) : TablesM Bool := do
  let t ← get
  if (t.requests.find? request).any fun r => r.status = .pending then do
    set { t with requests := t.requests.update request (fun r => { r with status }) fun _ => rfl }
    pure true
  else pure false

end AccessRequestRepository

/-! ### The service -/

namespace AccessApprovalService

open AccessRequestRepository

/-- The body of `create_or_get_request` with the time that it reads: the user, the request, and whether it is
new. -/
def createOrGetRequest (adminIds : List ℤ) (faults : Faults) (user now : ℤ) :
    TablesM (User × Option AccessRequest × Bool) := do
  let row ← onUsers (UserService.ensureUser adminIds faults.users user)
  if row.role = .superadmin ∨ (row.role = .approvedUser ∨ row.role = .moderator) ∧
      isBlockedUser row = false then pure (row, none, false)
  else do
    match ← await faults .getPending (getPendingForUser user) with
    | some pending => pure (row, some pending, false)
    | none => do
      let (request, created) ← createPendingIdempotent faults user now
      onlyIf created (await faults .writeAudit (pure ()))
      pure (row, some request, created)

/-- `get_by_id`, and `NotFound` when there is no such request. -/
def getRequest (faults : Faults) (c : RequestCall) (request : ℕ) : TablesM AccessRequest := do
  match ← await faults c (getById request) with
  | none => throw .notFound
  | some row => pure row

/-- The transaction of `approve` and `reject`, where `decideUser` is what is done about the user. -/
def decide (faults : Faults) (status : AccessRequestStatus) (decideUser : AccessRequest → TablesM Unit)
    (request : ℕ) : TablesM (AccessRequest × Bool) := do
  let row ← getRequest faults .getRequest request
  let changed ← await faults .setStatus (setStatusIfPending request status)
  onlyIf changed (do decideUser row; await faults .writeAudit (pure ()))
  let refreshed ← getRequest faults .getRefreshed request
  pure (refreshed, changed)

/-- The body of `approve`. -/
def approve (adminIds : List ℤ) (faults : Faults) (actor : ℤ) : ℕ → TablesM (AccessRequest × Bool) :=
  decide faults .approved fun row => (fun _ => ()) <$> onUsers
    (UserService.approveAccessRequestUser adminIds faults.users actor row.telegramUserId
      (some row.requestedAt))

/-- The body of `reject`. -/
def reject (faults : Faults) (actor : ℤ) : ℕ → TablesM (AccessRequest × Bool) :=
  decide faults .rejected fun row => (fun _ => ()) <$> onUsers
    (UserService.rejectAccessRequestUser faults.users actor row.telegramUserId)

end AccessApprovalService

/-! ### Calls -/

/-- Where a `create_or_get_request` waits; from `owning` on it is in its transaction. -/
inductive CreatePc
  | start
  | owning
  | committing (now : ℤ)
  | ended
  deriving DecidableEq

/-- Where an `approve` or a `reject` waits. -/
inductive DecidePc
  | start
  | checked
  | committing
  | ended
  deriving DecidableEq

/-- Where a `block_user` waits; from `owning` on it has the lock of the user. -/
inductive BlockPc
  | start
  | checked (actorUser : User)
  | owning (actorUser : User)
  | allowed
  | writing (now : ℤ)
  | revoking
  | ended
  deriving DecidableEq

/-- Where an `unblock_user` or a `set_role` waits. -/
inductive AssignPc
  | start
  | checked
  | allowed
  | committing
  | ended
  deriving DecidableEq

/-- What is decided about a request. -/
inductive Verdict
  | approve
  | reject
  deriving DecidableEq

/-- A call under way. -/
inductive Task
  | create (user : ℤ) (pc : CreatePc)
  | decide (verdict : Verdict) (actor : ℤ) (request : ℕ) (pc : DecidePc)
  | block (actor target : ℤ) (pc : BlockPc)
  | unblock (actor target : ℤ) (pc : AssignPc)
  | setRole (actor target : ℤ) (role : UserRole) (pc : AssignPc)
  deriving DecidableEq

namespace Task

/-- The call is in a transaction. -/
def transacts : Task → Bool
  | create _ .owning | create _ (.committing _) | decide _ _ _ .committing => true
  | unblock _ _ .committing | setRole _ _ _ .committing => true
  | _ => false

/-- The user whose lock the call holds. -/
def owns : Task → Option ℤ
  | block _ target (.owning _) | block _ target .allowed | block _ target (.writing _)
  | block _ target .revoking => some target
  | _ => none

/-- The call has not begun. -/
def fresh : Task → Bool
  | create _ pc => pc = .start
  | decide _ _ _ pc => pc = .start
  | block _ _ pc => pc = .start
  | unblock _ _ pc => pc = .start
  | setRole _ _ _ pc => pc = .start

end Task

/-- The tables, the last reading of the clock, the calls, the requests whose decisions were committed, and for
each user the key of the next request when `block_user` last wrote the role. -/
structure State where
  tables : Tables
  clock : ℤ
  tasks : List Task
  decisions : List ℕ
  blockedBefore : ℤ → ℕ

namespace State

/-- No call holds the lock of the database. -/
def databaseFree (s : State) : Bool := s.tasks.all fun task => !task.transacts

/-- No call holds the lock of the user. -/
def userFree (s : State) (user : ℤ) : Bool := isFree Task.owns s.tasks user

/-- A check, which reads the table of users when the database is free; what it returns. -/
def check (s : State) (p : UserM α) : Option α := (result p s.tables.users).1

/-- The tables after a transaction. -/
def commit (s : State) (p : TablesM α) : State :=
  { s with tables := (result (transaction p) s.tables).2 }

/-- The tables after the transaction of a decision. -/
def commitDecision (s : State) (request : ℕ) (p : TablesM (AccessRequest × Bool)) : State :=
  let (answer, tables) := result (transaction p) s.tables
  { s with
    tables
    decisions := if answer.any Prod.snd then s.decisions ++ [request] else s.decisions }

/-- The table of users after a transaction of `UserService`. -/
def assign (s : State) (p : UserM Unit) : State :=
  { s with tables := { s.tables with users := (result p s.tables.users).2 } }

/-- `set_role` of `block_user`. -/
def block (s : State) (target now : ℤ) : State :=
  match s.tables.users target with
  | none => s
  | some _ =>
    { s with
      tables := { s.tables with
        users := (result (UserRepository.setRole target .blockedUser (some (some now)))
          s.tables.users).2 }
      blockedBefore := Function.update s.blockedBefore target s.tables.requests.next }

end State

/-! ### Steps of the calls -/

variable (adminIds : List ℤ)

/-- `create_or_get_request` goes on. -/
def advanceCreate (s : State) (faults : Faults) (user : ℤ) : CreatePc → Option (State × CreatePc)
  | .start => if s.databaseFree then some (s, .owning) else none
  | .owning => some (s, .committing s.clock)
  | .committing now =>
    some (s.commit (AccessApprovalService.createOrGetRequest adminIds faults user now), .ended)
  | .ended => none

def Verdict.body (faults : Faults) (actor : ℤ) : Verdict → ℕ → TablesM (AccessRequest × Bool)
  | approve => AccessApprovalService.approve adminIds faults actor
  | reject => AccessApprovalService.reject faults actor

/-- `approve` or `reject` goes on. -/
def advanceDecide (s : State) (faults : Faults) (verdict : Verdict) (actor : ℤ) (request : ℕ) :
    DecidePc → Option (State × DecidePc)
  | .start =>
    if s.databaseFree then
      some (s, if (s.check (UserService.requireModeratorOrAdmin faults.users actor)).isSome then .checked
        else .ended)
    else none
  | .checked => if s.databaseFree then some (s, .committing) else none
  | .committing => some (s.commitDecision request (verdict.body adminIds faults actor request), .ended)
  | .ended => none

/-- `block_user` goes on; its write may raise before or after its effect. -/
def advanceBlock (s : State) (faults : Faults) (actor target : ℤ) : BlockPc → Option (State × BlockPc)
  | .start =>
    if s.databaseFree then
      match s.check (UserService.requireModeratorOrAdmin faults.users actor) with
      | none => some (s, .ended)
      | some actorUser => some (s, .checked actorUser)
    else none
  | .checked actorUser => if s.userFree target then some (s, .owning actorUser) else none
  | .owning actorUser =>
    if s.databaseFree then
      some (s, if (s.check (UserService.checkBlock adminIds faults.users actorUser target)).isSome then
        .allowed else .ended)
    else none
  | .allowed => some (s, .writing s.clock)
  | .writing now =>
    if s.databaseFree then
      some (if faults.users = some (.setRole, false) then s else s.block target now,
        if faults.users = none then .revoking else .ended)
    else none
  | .revoking => some (s, .ended)
  | .ended => none

/-- `unblock_user` or `set_role` goes on: the check of the actor, the other checks, and the role that is
written. -/
def advanceAssign (s : State) (faults : Faults) (askActor : UserM User) (checks : UserM Unit)
    (target : ℤ) (role : UserRole) : AssignPc → Option (State × AssignPc)
  | .start =>
    if s.databaseFree then some (s, if (s.check askActor).isSome then .checked else .ended) else none
  | .checked =>
    if s.databaseFree then some (s, if (s.check checks).isSome then .allowed else .ended) else none
  | .allowed => if s.databaseFree then some (s, .committing) else none
  | .committing => some (s.assign (UserService.assignRole faults.users target role), .ended)
  | .ended => none

/-- A call goes on to its next wait. -/
def Task.advance (s : State) (faults : Faults) : Task → Option (State × Task)
  | .create user pc =>
    (advanceCreate adminIds s faults user pc).map fun (s, pc) => (s, .create user pc)
  | .decide verdict actor request pc =>
    (advanceDecide adminIds s faults verdict actor request pc).map fun (s, pc) =>
      (s, .decide verdict actor request pc)
  | .block actor target pc =>
    (advanceBlock adminIds s faults actor target pc).map fun (s, pc) => (s, .block actor target pc)
  | .unblock actor target pc =>
    (advanceAssign s faults (UserService.requireModeratorOrAdmin faults.users actor)
      (UserService.checkUnblock adminIds faults.users target) target .approvedUser pc).map fun (s, pc) =>
        (s, .unblock actor target pc)
  | .setRole actor target role pc =>
    (advanceAssign s faults (UserService.requireSuperadmin faults.users actor)
      (UserService.checkSetRole adminIds faults.users target role) target role pc).map fun (s, pc) =>
        (s, .setRole actor target role pc)

/-- What happens: a call begins or goes on, the clock moves on, or the process starts anew. -/
inductive Action
  | start (task : Task)
  | next (i : ℕ) (faults : Faults)
  | tick (now : ℤ)
  | restart

def step (s : State) : Action → Option State
  | .start task => if task.fresh then some { s with tasks := s.tasks ++ [task] } else none
  | .next i faults =>
    s.tasks[i]?.bind fun task =>
      (task.advance adminIds s faults).map fun (s', task') => { s' with tasks := s.tasks.set i task' }
  | .tick now => if s.clock ≤ now then some { s with clock := now } else none
  | .restart => some { s with tasks := [] }

/-- Before the first request. -/
def State.start (users : UserTable) (clock : ℤ) : State := ⟨⟨users, .empty⟩, clock, [], [], fun _ => 0⟩

end AccessRequests

end VpnBot
