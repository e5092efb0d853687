import Mathlib.Data.Int.Notation
import Mathlib.Logic.Function.Basic
import VpnBot.System.Program
import VpnBot.System.Run

/-!
# The roles of users

The methods of `src/services/users.py` that write a role, on the table of users.  Each method runs
from its checks to its writes; one of its awaited calls may raise, before or after its effect
(`Fault`), and a `db.transaction()` takes back what was written when its body raises.  A method that blocks a
user goes on to revoke the keys and proxy accesses, which writes no role and is left out here.

Not modelled: the other columns of a user, what the audit log gets, and the state of the dialogue.
-/

namespace VpnBot.Users

open Sys Program

/-! ### Users -/

/-- `UserRole`. -/
inductive UserRole
  | superadmin
  | moderator
  | approvedUser
  | pendingUser
  | blockedUser
  deriving DecidableEq

/-- A time as `datetime.fromisoformat` reads it, in UTC; `none` is a text that it does not read. -/
abbrev Stamp := Option ℤ

/-- A row of `users`. -/
structure User where
  role : UserRole
  blockedAt : Option Stamp
  deriving DecidableEq

/-- `is_blocked_user`. -/
def isBlockedUser (user : User) : Bool :=
  if user.role = .superadmin then false else user.role = .blockedUser || user.blockedAt.isSome

/-- The table `users`, by its primary key. -/
abbrev UserTable := ℤ → Option User

/-- The role of a user who is in the table. -/
def roleOf (users : UserTable) (id : ℤ) : Option UserRole := (users id).map User.role

/-! ### Programs on the table -/

/-- What a method raises. -/
inductive UserError
  | accessDenied (message : String)
  | invalidOperation (message : String)
  | notFound
  | upsertFailed
  /-- An awaited call raises. -/
  | raised

/-- The awaited calls of a method. -/
inductive Call
  | getActor
  | getTarget
  | upsertProfile
  | getUpserted
  | setRole
  | writeAudit
  | getResult
  deriving DecidableEq

/-- The call that raises, if there is one, and whether it has its effect before. -/
abbrev Fault := Option (Call × Bool)

/-- A method on the table. -/
abbrev UserM := Program UserTable UserError

variable {α : Type}

def call (fault : Fault) (c : Call) (p : UserM α) : UserM α :=
  if fault = some (c, false) then throw .raised
  else p >>= fun a => if fault = some (c, true) then throw .raised else pure a

/-- `if condition: raise`. -/
def refuse (condition : Bool) (error : UserError) : UserM Unit :=
  if condition then throw error else pure ()

namespace UserRepository

/-- `get_by_id`. -/
def getById (id : ℤ) : UserM (Option User) := (fun users : UserTable => users id) <$> get

/-- The statement of `upsert_profile`; a row that is there keeps its role. -/
def upsertProfile (id : ℤ) (role : UserRole) : UserM Unit :=
  modify fun users =>
    match users id with
    | none => Function.update users id (some ⟨role, none⟩)
    | some _ => users

/-- `set_role`. -/
def setRole (id : ℤ) (role : UserRole) (blockedAt : Option Stamp) : UserM Unit := do
  match ← getById id with
  | none => throw .notFound
  | some _ => modify fun users => Function.update users id (some ⟨role, blockedAt⟩)

end UserRepository

/-! ### The methods of the service -/

namespace UserService

/-- `get_user`. -/
def getUser (fault : Fault) (c : Call) (id : ℤ) : UserM User := do
  match ← call fault c (UserRepository.getById id) with
  | none => throw .notFound
  | some user => pure user

/-- `require_superadmin`. -/
def requireSuperadmin (fault : Fault) (actor : ℤ) : UserM User := do
  let user ← getUser fault .getActor actor
  refuse (user.role ≠ .superadmin) (.accessDenied "Недостаточно прав")
  pure user

/-- `require_moderator_or_admin`. -/
def requireModeratorOrAdmin (fault : Fault) (actor : ℤ) : UserM User := do
  let user ← getUser fault .getActor actor
  refuse (!(user.role = .superadmin || user.role = .moderator)) (.accessDenied "Недостаточно прав")
  pure user

/-- `ensure_user`. -/
def ensureUser (adminIds : List ℤ) (fault : Fault) (id : ℤ) : UserM User := do
  let existing ← call fault .getTarget (UserRepository.getById id)
  let role :=
    if id ∈ adminIds then UserRole.superadmin
    else match existing with
      | none => .pendingUser
      | some user => user.role
  call fault .upsertProfile (UserRepository.upsertProfile id role)
  match ← call fault .getUpserted (UserRepository.getById id) with
  | none => throw .upsertFailed
  | some user =>
    if id ∈ adminIds ∧ user.role ≠ .superadmin then do
      call fault .setRole (UserRepository.setRole id .superadmin none)
      getUser fault .getResult id
    else pure user

/-- `set_role`. -/
def setRole (adminIds : List ℤ) (fault : Fault) (actor target : ℤ) (role : UserRole) :
    UserM Unit := do
  let _ ← requireSuperadmin fault actor
  refuse (role = .blockedUser)
    (.invalidOperation "Для блокировки используйте block_user, чтобы отозвать доступ")
  refuse (target ∈ adminIds && role ≠ .superadmin)
    (.invalidOperation "Нельзя изменить роль superadmin из ADMIN_IDS")
  let current ← getUser fault .getTarget target
  refuse (current.role = .superadmin && role ≠ .superadmin)
    (.invalidOperation "Нельзя изменить роль superadmin")
  transaction do
    call fault .setRole (UserRepository.setRole target role none)
    call fault .writeAudit (pure ())

/-- `_request_is_after_block`. -/
def requestIsAfterBlock (blockedAt : Option Stamp) (requestedAt : Stamp) : Bool :=
  match blockedAt, requestedAt with
  | some (some blocked), some requested => requested > blocked
  | _, _ => false

/-- `approve_access_request_user`: the user, whether the role changed, and whether it was a block that
ended. -/
def approveAccessRequestUser (adminIds : List ℤ) (fault : Fault) (actor target : ℤ)
    (requestedAt : Stamp) : UserM (User × Bool × Bool) := do
  let _ ← requireModeratorOrAdmin fault actor
  let current ← getUser fault .getTarget target
  if target ∈ adminIds ∨ current.role = .superadmin then pure (current, false, false)
  else do
    let repeatAfterBlock := isBlockedUser current
    refuse (repeatAfterBlock && !requestIsAfterBlock current.blockedAt requestedAt)
      (.invalidOperation "Пользователь заблокирован. Сначала разблокируйте пользователя.")
    if current.role = .approvedUser ∧ repeatAfterBlock = false then pure (current, false, false)
    else if current.role = .moderator then pure (current, false, false)
    else do
      refuse (!(current.role = .pendingUser || current.role = .approvedUser ||
          current.role = .blockedUser))
        (.invalidOperation "Нельзя одобрить пользователя в текущей роли")
      call fault .setRole (UserRepository.setRole target .approvedUser none)
      let user ← getUser fault .getResult target
      pure (user, true, repeatAfterBlock)

/-- `block_user`, up to the revocation of the keys. -/
def blockUser (adminIds : List ℤ) (fault : Fault) (actor target : ℤ) (now : Stamp) :
    UserM User := do
  let actorUser ← requireModeratorOrAdmin fault actor
  refuse (target ∈ adminIds) (.invalidOperation "Нельзя заблокировать superadmin из ADMIN_IDS")
  let targetUser ← getUser fault .getTarget target
  refuse (targetUser.role = .superadmin) (.invalidOperation "Нельзя заблокировать superadmin")
  refuse (actorUser.role = .moderator && targetUser.role = .moderator)
    (.accessDenied "Модератор не может заблокировать другого модератора")
  call fault .setRole (UserRepository.setRole target .blockedUser (some now))
  getUser fault .getResult target

/-- `unblock_user`. -/
def unblockUser (adminIds : List ℤ) (fault : Fault) (actor target : ℤ) : UserM User := do
  let _ ← requireModeratorOrAdmin fault actor
  refuse (target ∈ adminIds) (.invalidOperation "Нельзя изменить роль superadmin из ADMIN_IDS")
  let targetUser ← getUser fault .getTarget target
  refuse (targetUser.role = .superadmin) (.invalidOperation "Нельзя изменить роль superadmin")
  transaction do
    call fault .setRole (UserRepository.setRole target .approvedUser none)
    call fault .writeAudit (pure ())
  getUser fault .getResult target

end UserService

/-! ### Runs of operations -/

/-- An operation that may change a role. -/
inductive Operation
  | setRole (actor target : ℤ) (role : UserRole)
  | approveAccessRequestUser (actor target : ℤ) (requestedAt : Stamp)
  | blockUser (actor target : ℤ) (now : Stamp)
  | unblockUser (actor target : ℤ)
  | ensureUser (id : ℤ)
  deriving DecidableEq

namespace Operation

/-- Who performs the operation; `ensure_user` is the bot's own. -/
def actor : Operation → Option ℤ
  | setRole actor _ _ | approveAccessRequestUser actor _ _ | blockUser actor _ _
  | unblockUser actor _ => some actor
  | ensureUser _ => none

/-- The method of the operation, without what it returns. -/
def run (adminIds : List ℤ) (fault : Fault) : Operation → UserM Unit
  | setRole actor target role => UserService.setRole adminIds fault actor target role
  | approveAccessRequestUser actor target requestedAt =>
    (fun _ => ()) <$> UserService.approveAccessRequestUser adminIds fault actor target requestedAt
  | blockUser actor target now =>
    (fun _ => ()) <$> UserService.blockUser adminIds fault actor target now
  | unblockUser actor target => (fun _ => ()) <$> UserService.unblockUser adminIds fault actor target
  | ensureUser id => (fun _ => ()) <$> UserService.ensureUser adminIds fault id

/-- The table after the operation, whether it returns or raises. -/
def after (adminIds : List ℤ) (fault : Fault) (operation : Operation) (users : UserTable) :
    UserTable :=
  match operation.run adminIds fault users with
  | .ok _ users' => users'
  | .error _ users' => users'

end Operation

/-- One step of a run: an operation, and the call of it that raises. -/
def step (adminIds : List ℤ) (users : UserTable) : Operation × Fault → Option UserTable
  | (operation, fault) => some (operation.after adminIds fault users)

end VpnBot.Users
