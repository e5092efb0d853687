import VpnBot.Issuing.Calls
import VpnBot.Keys.VpnKey
import VpnBot.System.Calls
import VpnBot.System.Tasks

/-!
# Trial requests

`TrialAccessService` of `src/services/trial_access.py` with the statements of
`src/repositories/trial_requests.py`, one step for each place where a call waits.  A decision is made under
`_decision_lock`; an approval issues a key, under the lock of the owner as `Issuing` has it, and claims the
request afterwards.  The issuing call is taken as a whole from its last check of the owner to the key
that it returns: it returns a live key, or raises and leaves none.  The revoke of a rollback succeeds.

A time is in seconds since 1970, as `ClockProvider` reads it without microseconds; the texts of the times
are compared in the order of the times.  What is kept besides the tables: for which request a key was
issued and whether its owner was blocked then, and for each user the number of quota resets, in all and at
the last approval.

Not modelled: who decided and when, when a trial key expires, the audit log and the messages.
-/

namespace VpnBot.Trial

open Sys Users

/-! ### Tables -/

inductive RequestStatus
  | pending
  | approved
  | rejected
  deriving DecidableEq

/-- A row of `trial_key_requests`. -/
structure TrialKeyRequest where
  id : ℕ
  telegramUserId : ℤ
  keyType : VpnKeyType
  status : RequestStatus
  keyId : Option ℕ
  requestedAt : ℤ
  deriving DecidableEq

/-- A trial key that was issued: for which request, and whether its owner was blocked at that moment;
`live` says that it was not revoked since. -/
structure TrialKey where
  id : ℕ
  request : ℕ
  owner : ℤ
  ownerBlocked : Bool
  live : Bool
  deriving DecidableEq

abbrev Requests := Rows TrialKeyRequest TrialKeyRequest.id

abbrev TrialKeys := Rows TrialKey TrialKey.id

/-! ### Calls -/

/-- Where a `create_trial_request` waits. -/
inductive CreatePc
  | start
  | checked
  | ended
  deriving DecidableEq

/-- Where an `approve_trial_request` waits; from `issuing` to `provisioning` it is in the issuing call. -/
inductive ApprovePc
  | start
  | queued
  | reading
  | asking (user : ℤ)
  | issuing (owner : ℤ)
  | checking (owner : ℤ)
  | provisioning (owner : ℤ)
  | linking (key : ℕ)
  | rollingBack (key : ℕ)
  | ended
  deriving DecidableEq

/-- Where a `reject_trial_request` waits. -/
inductive RejectPc
  | start
  | queued
  | reading
  | writing
  | ended
  deriving DecidableEq

/-- Where an `admin_reset_trial_quota` waits. -/
inductive ResetPc
  | start
  | writing (now : ℤ)
  | ended
  deriving DecidableEq

/-- Where a `block_user` waits. -/
inductive BlockPc
  | start
  | owned
  | revoking
  | ended
  deriving DecidableEq

/-- A call under way. -/
inductive Task
  | create (user : ℤ) (keyType : VpnKeyType) (pc : CreatePc)
  | approve (request : ℕ) (pc : ApprovePc)
  | reject (request : ℕ) (pc : RejectPc)
  | reset (user : ℤ) (pc : ResetPc)
  | block (user : ℤ) (now : Stamp) (pc : BlockPc)
  deriving DecidableEq

namespace Task

/-- The call holds `_decision_lock`. -/
def decides : Task → Option Unit
  | approve _ .start | approve _ .queued | approve _ .ended => none
  | approve _ _ => some ()
  | reject _ .reading | reject _ .writing => some ()
  | reject _ _ | create _ _ _ | reset _ _ | block _ _ _ => none

/-- The user whose lock the call holds. -/
def owns : Task → Option ℤ
  | approve _ (.checking owner) | approve _ (.provisioning owner) => some owner
  | block user _ .owned | block user _ .revoking => some user
  | _ => none

/-- The call has not begun. -/
def fresh : Task → Bool
  | create _ _ pc => pc = .start
  | approve _ pc => pc = .start
  | reject _ pc => pc = .start
  | reset _ pc => pc = .start
  | block _ _ pc => pc = .start

end Task

/-- The tables, the last reading of the clock, the resets of each user, those before the last approval,
and the calls. -/
structure State where
  users : UserTable
  resetAt : ℤ → Option ℤ
  requests : Requests
  keys : TrialKeys
  clock : ℤ
  resets : ℤ → ℕ
  resetsAtApproval : ℤ → ℕ
  tasks : List Task

/-! ### Statements -/

namespace State

/-- The time after which a request counts, by default `1970-01-01T00:00:00+00:00`. -/
def threshold (s : State) (user : ℤ) : ℤ := (s.resetAt user).getD 0

/-- `count_used_since_reset`. -/
def countUsedSinceReset (s : State) (user : ℤ) : ℕ :=
  s.requests.rows.countP fun r =>
    r.telegramUserId = user && r.requestedAt > s.threshold user && r.status ≠ .rejected

/-- `can_request_trial`. -/
def canRequestTrial (s : State) (user : ℤ) : Bool := s.countUsedSinceReset user = 0

/-- `idx_trial_requests_one_pending` refuses a second pending request. -/
def hasPending (s : State) (user : ℤ) : Bool :=
  s.requests.rows.any fun r => r.telegramUserId = user && r.status = .pending

/-- `create`. -/
def create (s : State) (user : ℤ) (keyType : VpnKeyType) : State :=
  { s with
    requests := s.requests.insert ⟨s.requests.next, user, keyType, .pending, none, s.clock⟩ rfl }

/-- The request is pending: the `WHERE` clause of `approve` and `reject`. -/
def isPending (s : State) (request : ℕ) : Bool :=
  (s.requests.find? request).any fun r => r.status = .pending

/-- The `UPDATE` of `approve`. -/
def approve (s : State) (request key : ℕ) : State :=
  match s.requests.find? request with
  | some r =>
    if r.status = .pending then
      { s with
        requests := s.requests.update request (fun r => { r with status := .approved, keyId := some key })
          fun _ => rfl
        resetsAtApproval :=
          Function.update s.resetsAtApproval r.telegramUserId (s.resets r.telegramUserId) }
    else s
  | none => s

/-- The `UPDATE` of `reject`. -/
def reject (s : State) (request : ℕ) : State :=
  if s.isPending request then
    { s with requests := s.requests.update request (fun r => { r with status := .rejected }) fun _ => rfl }
  else s

/-- `reset_trial_quota`. -/
def resetTrialQuota (s : State) (user now : ℤ) : State :=
  { s with
    resetAt := Function.update s.resetAt user (some now)
    resets := Function.update s.resets user (s.resets user + 1) }

/-- The issuing call makes the key live. -/
def provision (s : State) (request : ℕ) (owner : ℤ) : State :=
  { s with
    keys := s.keys.insert ⟨s.keys.next, request, owner, (s.users owner).any isBlockedUser, true⟩ rfl }

def revoke (s : State) (key : ℕ) : State :=
  { s with keys := s.keys.update key (fun k => { k with live := false }) fun _ => rfl }

/-- `set_role`. -/
def setRole (s : State) (user : ℤ) (row : User) : State :=
  { s with users := Function.update s.users user (some row) }

/-- No call holds `_decision_lock`. -/
def decisionFree (s : State) : Bool := s.tasks.all fun task => task.decides = none

/-- No call holds the lock of the user. -/
def userFree (s : State) (user : ℤ) : Bool := isFree Task.owns s.tasks user

end State

/-! ### Steps of the calls -/

/-- `create_trial_request` goes on; `ok` says that nothing raises.  The quota check and the insertion are
one transaction. -/
def advanceCreate (s : State) (ok : Bool) (user : ℤ) (keyType : VpnKeyType) :
    CreatePc → Option (State × CreatePc)
  | .start =>
    match s.users user with
    | none => some (s, .ended)
    | some requester => some (s, if isBlockedUser requester || !ok then .ended else .checked)
  | .checked =>
    if s.canRequestTrial user && !s.hasPending user && ok then some (s.create user keyType, .ended)
    else some (s, .ended)
  | .ended => none

/-- `approve_trial_request` goes on.  `fault` says how the awaited call ends: `require_superadmin`, the
reads, the issuing call, and the `UPDATE` of `approve`, which may raise after its effect. -/
def advanceApprove (s : State) (fault : Option CallFault) (request : ℕ) :
    ApprovePc → Option (State × ApprovePc)
  | .start => some (s, if fault = none then .queued else .ended)
  | .queued => if s.decisionFree then some (s, .reading) else none
  | .reading =>
    match s.requests.find? request with
    | none => some (s, .ended)
    | some r => some (s, if r.status = .pending ∧ fault = none then .asking r.telegramUserId else .ended)
  | .asking user =>
    match s.users user with
    | none => some (s, .ended)
    | some _ => some (s, if fault = none then .issuing user else .ended)
  | .issuing owner =>
    if fault ≠ none then some (s, .ended)
    else if s.userFree owner then some (s, .checking owner) else none
  | .checking owner =>
    some (s, if fault = none ∧ Issuing.ensureCanCreate true (s.users owner) = true then .provisioning owner
      else .ended)
  | .provisioning owner =>
    if fault = none then some (s.provision request owner, .linking s.keys.next) else some (s, .ended)
  | .linking key =>
    match fault with
    | none => some (s.approve request key, if s.isPending request then .ended else .rollingBack key)
    | some .before => some (s, .rollingBack key)
    | some .after => some (s.approve request key, .rollingBack key)
  | .rollingBack key => some (s.revoke key, .ended)
  | .ended => none

/-- `reject_trial_request` goes on. -/
def advanceReject (s : State) (fault : Option CallFault) (request : ℕ) :
    RejectPc → Option (State × RejectPc)
  | .start => some (s, if fault = none then .queued else .ended)
  | .queued => if s.decisionFree then some (s, .reading) else none
  | .reading =>
    match s.requests.find? request with
    | none => some (s, .ended)
    | some r => some (s, if r.status = .pending ∧ fault = none then .writing else .ended)
  | .writing => some (if fault = some .before then s else s.reject request, .ended)
  | .ended => none

/-- `admin_reset_trial_quota` goes on; it reads the clock before it writes. -/
def advanceReset (s : State) (fault : Option CallFault) (user : ℤ) : ResetPc → Option (State × ResetPc)
  | .start => some (s, if fault = none then .writing s.clock else .ended)
  | .writing now => some (if fault = some .before then s else s.resetTrialQuota user now, .ended)
  | .ended => none

/-- `block_user` goes on; what its sweeps revoke is an action of its own. -/
def advanceBlock (s : State) (fault : Option CallFault) (user : ℤ) (now : Stamp) :
    BlockPc → Option (State × BlockPc)
  | .start => if s.userFree user then some (s, .owned) else none
  | .owned =>
    match s.users user with
    | none => some (s, .ended)
    | some row =>
      if row.role = .superadmin ∨ fault = some .before then some (s, .ended)
      else some (s.setRole user ⟨.blockedUser, some now⟩, .revoking)
  | .revoking => some (s, .ended)
  | .ended => none

/-- A call goes on to its next wait. -/
def Task.advance (s : State) (fault : Option CallFault) : Task → Option (State × Task)
  | .create user keyType pc =>
    (advanceCreate s (fault = none) user keyType pc).map fun (s, pc) => (s, .create user keyType pc)
  | .approve request pc => (advanceApprove s fault request pc).map fun (s, pc) => (s, .approve request pc)
  | .reject request pc => (advanceReject s fault request pc).map fun (s, pc) => (s, .reject request pc)
  | .reset user pc => (advanceReset s fault user pc).map fun (s, pc) => (s, .reset user pc)
  | .block user now pc => (advanceBlock s fault user now pc).map fun (s, pc) => (s, .block user now pc)

/-- What happens: a call begins or goes on, the clock moves on, a key is revoked, or a method other than
`block_user` writes a role; no such method writes `BLOCKED_USER` or leaves a `blocked_at`. -/
inductive Action
  | start (task : Task)
  | next (i : ℕ) (fault : Option CallFault)
  | tick (now : ℤ)
  | revoke (key : ℕ)
  | setRole (user : ℤ) (role : UserRole)

def step (s : State) : Action → Option State
  | .start task => if task.fresh then some { s with tasks := s.tasks ++ [task] } else none
  | .next i fault =>
    s.tasks[i]?.bind fun task =>
      (task.advance s fault).map fun (s', task') => { s' with tasks := s.tasks.set i task' }
  | .tick now => if s.clock ≤ now then some { s with clock := now } else none
  | .revoke key => some (s.revoke key)
  | .setRole user role => if role = .blockedUser then none else some (s.setRole user ⟨role, none⟩)

/-- Before the first request. -/
def State.start (users : UserTable) (clock : ℤ) : State :=
  ⟨users, fun _ => none, .empty, .empty, clock, fun _ => 0, fun _ => 0, []⟩

end VpnBot.Trial
