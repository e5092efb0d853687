import VpnBot.Issuing.Sections
import VpnBot.Users.Roles

/-!
# Issuing and blocking at once

`block_user` of `src/services/users.py`, the methods that issue a key or a proxy access in the five
services, their `revoke…`, `delete…` and reconciliation, and `UserLockManager` of
`src/services/user_locks.py`.  Any number of calls are under way; one step goes on with one call to its
next wait.  `bot/app.py` gives all services one `UserLockManager`, and `block_user` the revokers of all
types.

A call reads a user or a row when its step is made.  What else decides whether an awaited call returns is
part of the action (`Answer`): the backends and their health, the module switches, the row of the actor,
and the page that a query returns.  A call that raises where nothing catches it, or is cancelled, gives
back its locks.
-/

namespace VpnBot.Issuing

open Sys Users

/-! ### The calls -/

/-- Where a call that issues waits; `lock` is the lock object of the owner. -/
inductive IssuePc
  | start
  | queued (lock : ℕ)
  | owned (lock : ℕ)
  | admitted (lock : ℕ)
  | serving (lock : ℕ)
  | cleared (lock : ℕ)
  | inside (lock id : ℕ) (pc : SectionPc)
  | ended
  deriving DecidableEq

/-- `create_xray_key`, `create_awg_key`, `issue`, `issue_socks5_proxy`, `_issue_managed` and
`_issue_static`; `guest` is `allow_pending_owner`. -/
structure IssueCall where
  kind : Kind
  owner : ℤ
  guest : Bool
  pc : IssuePc
  deriving DecidableEq

/-- Where a call waits that works on a row that is there. -/
inductive WriterPc
  | glancing
  | queued
  | reading
  | inside (plan : Plan) (pc : SectionPc)
  | ended (returned : Bool)
  deriving DecidableEq

/-- A call of a method on a row. -/
structure Writer where
  method : Method
  kind : Kind
  id : ℕ
  pc : WriterPc
  deriving DecidableEq

/-- `_revoke_all_access_keys` or `_revoke_all_proxy_accesses` under way: the rows of the page that are
not tried yet, and the ids that were. -/
structure Sweep where
  family : Family
  queue : List (ℕ × Kind)
  succeeded : List ℕ
  failed : List ℕ
  deriving DecidableEq

/-- Where a `block_user` waits; `errors` has the ids of the errors. -/
inductive BlockPc
  | start
  | queued (lock : ℕ)
  | owned (lock : ℕ)
  | setting (lock : ℕ)
  | listing (lock : ℕ) (sweep : Sweep) (errors : List ℕ)
  | revoking (lock : ℕ) (sweep : Sweep) (errors : List ℕ) (kind : Kind) (id : ℕ) (pc : WriterPc)
  | finishing (lock : ℕ) (errors : List ℕ)
  | ended (errors : Option (List ℕ))
  deriving DecidableEq

/-- A call of `block_user`. -/
structure BlockCall where
  target : ℤ
  revokeActiveKeys : Bool
  now : Stamp
  pc : BlockPc
  deriving DecidableEq

/-- A call under way. -/
inductive Task
  | issue (call : IssueCall)
  | write (call : Writer)
  | block (call : BlockCall)
  deriving DecidableEq

namespace Task

/-- The user and the lock object that the call waits for or holds. -/
def reference : Task → Option (ℤ × ℕ)
  | issue c =>
    match c.pc with
    | .queued l | .owned l | .admitted l | .serving l | .cleared l | .inside l _ _ => some (c.owner, l)
    | .start | .ended => none
  | write _ => none
  | block c =>
    match c.pc with
    | .queued l | .owned l | .setting l | .listing l _ _ | .revoking l _ _ _ _ _
    | .finishing l _ => some (c.target, l)
    | .start | .ended _ => none

/-- The lock object that the call holds. -/
def holds : Task → Option ℕ
  | issue c =>
    match c.pc with
    | .owned l | .admitted l | .serving l | .cleared l | .inside l _ _ => some l
    | .start | .queued _ | .ended => none
  | write _ => none
  | block c =>
    match c.pc with
    | .owned l | .setting l | .listing l _ _ | .revoking l _ _ _ _ _ | .finishing l _ => some l
    | .start | .queued _ | .ended _ => none

end Task

/-- What a call that issues does with the row that it has inserted: the backend is called, `mark_active`,
and the compensation when that raises. -/
def Plan.created : Plan := ⟨.pendingApply, none, some .applyFailed, .markActive, some .applyFailed⟩

/-- The service whose lock a writer holds, named by a kind of its rows. -/
def Writer.serves (w : Writer) : Option Kind :=
  match w.pc with
  | .reading | .inside _ _ => if w.kind.locked then some w.kind else none
  | .glancing | .queued | .ended _ => none

/-- The row that a writer works on. -/
def Writer.section? (w : Writer) : Option Section :=
  match w.pc with
  | .inside plan pc => some ⟨w.kind, w.id, plan, pc⟩
  | .glancing | .queued | .reading | .ended _ => none

namespace Task

/-- The service whose lock the call holds. -/
def serves : Task → Option Kind
  | issue c =>
    match c.pc with
    | .serving _ | .cleared _ | .inside _ _ _ => if c.kind.locked then some c.kind else none
    | .start | .queued _ | .owned _ | .admitted _ | .ended => none
  | write w => w.serves
  | block c =>
    match c.pc with
    | .revoking _ _ _ kind id pc => Writer.serves ⟨.revoke, kind, id, pc⟩
    | .start | .queued _ | .owned _ | .setting _ | .listing _ _ _ | .finishing _ _ | .ended _ => none

/-- The row that the call works on. -/
def section? : Task → Option Section
  | issue c =>
    match c.pc with
    | .inside _ id pc => some ⟨c.kind, id, Plan.created, pc⟩
    | .start | .queued _ | .owned _ | .admitted _ | .serving _ | .cleared _ | .ended => none
  | write w => w.section?
  | block c =>
    match c.pc with
    | .revoking _ _ _ kind id pc => Writer.section? ⟨.revoke, kind, id, pc⟩
    | .start | .queued _ | .owned _ | .setting _ | .listing _ _ _ | .finishing _ _ | .ended _ => none

end Task

/-! ### States -/

/-- The users, the rows, the lock objects of the manager by user, the next new lock object, and the
calls. -/
structure State where
  users : UserTable
  rows : AccessRows
  locks : ℤ → Option ℕ
  nextLock : ℕ
  tasks : List Task

namespace State

/-- The lock object that `UserLockManager.lock` takes from its dictionary, or makes. -/
def lockOf (s : State) (user : ℤ) : ℕ := (s.locks user).getD s.nextLock

/-- No call holds the lock object. -/
def lockFree (s : State) (lock : ℕ) : Bool := s.tasks.all fun task => task.holds ≠ some lock

/-- No call holds the lock of the service. -/
def serviceFree (s : State) (kind : Kind) : Bool := s.tasks.all fun task => task.serves ≠ some kind

/-- `_active_access`. -/
def hasActive (s : State) (owner : ℤ) (kind : Kind) : Bool :=
  s.rows.rows.any fun row => row.owner = owner && row.kind.sameType kind && row.status = .active

/-- `list_by_owner_statuses` with the statuses of `block_user` may return these rows: at most 500, and
none only if there are none.  Which rows come first is a matter of columns that are left out. -/
def isPage (s : State) (target : ℤ) (family : Family) (page : List ℕ) : Bool :=
  let wanted := fun row : Row =>
    row.owner = target && row.kind.family = family && row.status ∈ family.live
  page.Nodup && page.length ≤ 500 && page.all (fun id => (s.rows.find? id).any wanted) &&
    (!page.isEmpty || !s.rows.rows.any wanted)

end State

/-! ### What a step does to the state -/

/-- The effect of a step: the dictionary of locks is asked for the lock of a user, a row is inserted, a
statement writes the status of a row, or the row of a user is written. -/
inductive Effect
  | nothing
  | fetch (user : ℤ)
  | insert (owner : ℤ) (kind : Kind) (status : RowStatus)
  | execute (id : ℕ) (statement : Statement)
  | setRole (user : ℤ) (row : User)

namespace State

/-- The state after the effect. -/
def apply (s : State) : Effect → State
  | .nothing => s
  | .fetch user =>
    { s with
      locks := Function.update s.locks user (some (s.lockOf user))
      nextLock := max s.nextLock (s.lockOf user + 1) }
  | .insert owner kind status =>
    { s with rows := s.rows.insert ⟨s.rows.next, owner, kind, status⟩ rfl }
  | .execute id statement => { s with rows := statement.execute id s.rows }
  | .setRole user row => { s with users := Function.update s.users user (some row) }

end State

/-- The effect of a section that may have come to a statement. -/
def Effect.ofStatement (id : ℕ) : Option Statement → Effect
  | none => .nothing
  | some statement => .execute id statement

/-! ### Issuing -/

/-- `require_approved_or_admin`. -/
def approvedOrAdmin (user : User) : Bool :=
  if user.role = .superadmin ∨ user.role = .moderator then true
  else !isBlockedUser user && user.role = .approvedUser

/-- What `_ensure_can_create` and `_ensure_can_issue` check of the owner; `_ensure_can_issue` is the
check without `allow_pending_owner`. -/
def ensureCanCreate (guest : Bool) (owner : Option User) : Bool :=
  match owner with
  | none => false
  | some user =>
    if guest then !isBlockedUser user
    else approvedOrAdmin user && (user.role = .superadmin || user.role = .approvedUser)

namespace IssueCall

/-- The service checks the owner again under its lock, and before the backend is called. -/
def rechecks (c : IssueCall) : Bool := c.kind ≠ .mtprotoManaged

/-- The owner has an access of the type already. -/
def hasAccess (s : State) (c : IssueCall) : Bool :=
  c.kind.family = .proxies && s.hasActive c.owner c.kind

/-- Where the call goes on after the insertion; Hysteria2 has no backend to call. -/
def entry (c : IssueCall) : SectionPc := if c.kind = .hysteria2 then .finishing else .calling

/-- A call that issues goes on. -/
def advance (s : State) (answer : Answer) (c : IssueCall) : Option (Effect × IssuePc) :=
  let allowed := answer = .returns && ensureCanCreate c.guest (s.users c.owner)
  match c.pc with
  | .start => some (.fetch c.owner, .queued (s.lockOf c.owner))
  | .queued l => if s.lockFree l then some (.nothing, .owned l) else none
  | .owned l => some (.nothing, if allowed then .admitted l else .ended)
  | .admitted l =>
    if c.hasAccess s then some (.nothing, .ended)
    else if c.kind.locked then
      if s.serviceFree c.kind then some (.nothing, .serving l) else none
    else some (.nothing, .cleared l)
  | .serving l =>
    let clear := if c.rechecks then allowed else !c.hasAccess s
    some (.nothing, if clear then .cleared l else .ended)
  | .cleared l =>
    if c.kind.locked then
      some (.insert c.owner c.kind .pendingApply, .inside l s.rows.next c.entry)
    else some (.insert c.owner c.kind .active, .ended)
  | .inside l id pc =>
    let answer := if pc = .calling ∧ c.rechecks = true ∧ allowed = false then .raises else answer
    let (statement, next) := Section.advance s.rows answer ⟨c.kind, id, .created, pc⟩
    some (Effect.ofStatement id statement,
      match next with
      | .goes pc => .inside l id pc
      | .ended _ => .ended)
  | .ended => none

end IssueCall

/-! ### Methods on a row -/

namespace Writer

/-- A call that is about to begin.  The methods of the proxies read the access before they wait for the
lock. -/
def begin (method : Method) (kind : Kind) (id : ℕ) : Writer :=
  ⟨method, kind, id,
    match method, kind.family with
    | .revoke, .proxies | .delete, .proxies => .glancing
    | _, _ => .queued⟩

/-- A revoke of MTProto returns before it waits for the lock when the access is settled. -/
def returnsEarly (w : Writer) (row : Row) : Bool :=
  w.method = .revoke && w.kind.sameType .mtprotoManaged && row.status.settled

/-- A method on a row goes on. -/
def advance (s : State) (answer : Answer) (w : Writer) : Option (Effect × WriterPc) :=
  match w.pc with
  | .glancing =>
    match s.rows.find? w.id with
    | none => some (.nothing, .ended false)
    | some row =>
      if row.kind ≠ w.kind then some (.nothing, .ended false)
      else if w.returnsEarly row then some (.nothing, .ended true)
      else some (.nothing, .queued)
  | .queued =>
    if w.kind.locked = false ∨ s.serviceFree w.kind = true then some (.nothing, .reading) else none
  | .reading =>
    match s.rows.find? w.id with
    | none => some (.nothing, .ended false)
    | some row =>
      if row.kind ≠ w.kind ∨ w.kind.family.hasStatus row.status = false then
        some (.nothing, .ended false)
      else
        match w.method.decide w.kind row.status with
        | .returns => some (.nothing, .ended true)
        | .raises => some (.nothing, .ended false)
        | .goes plan => some (.nothing, .inside plan (Section.entry plan))
  | .inside plan pc =>
    let (statement, next) := Section.advance s.rows answer ⟨w.kind, w.id, plan, pc⟩
    some (Effect.ofStatement w.id statement,
      match next with
      | .goes pc => .inside plan pc
      | .ended returned => .ended returned)
  | .ended _ => none

end Writer

/-! ### Blocking -/

namespace Sweep

/-- A sweep of a table begins. -/
def begin (family : Family) : Sweep := ⟨family, [], [], []⟩

/-- The rows of the page that were not tried. -/
def pending (sweep : Sweep) (page : List ℕ) : List ℕ :=
  page.filter fun id => id ∉ sweep.succeeded ∧ id ∉ sweep.failed

/-- The errors of rows that were revoked and are on the page again. -/
def stuck (sweep : Sweep) (page : List ℕ) : List ℕ := page.filter (· ∈ sweep.succeeded)

/-- The next row of the page, or the next page. -/
def next (lock : ℕ) (sweep : Sweep) (errors : List ℕ) : BlockPc :=
  match sweep.queue with
  | [] => .listing lock sweep errors
  | (id, kind) :: queue =>
    .revoking lock { sweep with queue := queue } errors kind id (Writer.begin .revoke kind id).pc

/-- The sweep is over: the proxies come after the keys. -/
def leave (lock : ℕ) (sweep : Sweep) (errors : List ℕ) : BlockPc :=
  match sweep.family with
  | .keys => .listing lock (.begin .proxies) errors
  | .proxies => .finishing lock errors

end Sweep

namespace BlockCall

/-- `block_user` goes on. -/
def advance (adminIds : List ℤ) (s : State) (answer : Answer) (page : List ℕ) (c : BlockCall) :
    Option (Effect × BlockPc) :=
  match c.pc with
  | .start => some (.fetch c.target, .queued (s.lockOf c.target))
  | .queued l => if s.lockFree l then some (.nothing, .owned l) else none
  | .owned l =>
    if c.target ∈ adminIds then some (.nothing, .ended none)
    else
      match s.users c.target with
      | none => some (.nothing, .ended none)
      | some user =>
        -- the answer raises when the actor and the target are moderators
        if user.role = .superadmin ∨ answer ≠ .returns then some (.nothing, .ended none)
        else some (.nothing, .setting l)
  | .setting l =>
    match s.users c.target with
    | none => some (.nothing, .ended none)
    | some _ =>
      some (.setRole c.target ⟨.blockedUser, some c.now⟩,
        if c.revokeActiveKeys then .listing l (.begin .keys) [] else .finishing l [])
  | .listing l sweep errors =>
    if s.isPage c.target sweep.family page then
      if page.isEmpty then some (.nothing, sweep.leave l errors)
      else if (sweep.pending page).isEmpty then
        some (.nothing, sweep.leave l (errors ++ sweep.stuck page))
      else
        let rows := (sweep.pending page).filterMap s.rows.find?
        let queue := rows.map fun row => (row.id, row.kind)
        some (.nothing, Sweep.next l { sweep with queue := queue } errors)
    else none
  | .revoking l sweep errors kind id pc =>
    match pc with
    | .ended true =>
      some (.nothing, Sweep.next l { sweep with succeeded := id :: sweep.succeeded } errors)
    | .ended false =>
      
      some (.nothing, Sweep.next l { sweep with failed := id :: sweep.failed } (errors ++ [id]))
    | _ =>
      (Writer.advance s answer ⟨.revoke, kind, id, pc⟩).map fun (effect, pc) =>
        (effect, .revoking l sweep errors kind id pc)
  | .finishing _ errors => some (.nothing, .ended (some errors))
  | .ended _ => none

end BlockCall

/-! ### Steps -/

namespace Task

/-- The call has not begun. -/
def fresh : Task → Bool
  | issue c => c.pc = .start
  | write w => w.pc = (Writer.begin w.method w.kind w.id).pc
  | block c => c.pc = .start

/-- A call goes on to its next wait. -/
def advance (adminIds : List ℤ) (s : State) (answer : Answer) (page : List ℕ) :
    Task → Option (Effect × Task)
  | issue c => (c.advance s answer).map fun (effect, pc) => (effect, issue { c with pc := pc })
  | write w => (w.advance s answer).map fun (effect, pc) => (effect, write { w with pc := pc })
  | block c =>
    (c.advance adminIds s answer page).map fun (effect, pc) => (effect, block { c with pc := pc })

/-- The call ends with an exception. -/
def cancel : Task → Task
  | issue c => issue { c with pc := .ended }
  | write w => write { w with pc := .ended false }
  | block c => block { c with pc := .ended none }

/-- An awaited call raises.  `block_user` catches what its revokers raise. -/
def fault : Task → Task
  | block c =>
    match c.pc with
    | .revoking l sweep errors kind id _ =>
      block { c with pc := .revoking l sweep errors kind id (.ended false) }
    | _ => (block c).cancel
  | task => task.cancel

/-- The call is under way. -/
def running : Task → Bool
  | issue c => c.pc ≠ .ended
  | write w =>
    match w.pc with
    | .ended _ => false
    | _ => true
  | block c =>
    match c.pc with
    | .ended _ => false
    | _ => true

end Task

/-- What happens: a call begins, goes on, raises or is cancelled; the dictionary drops the lock of a user
that no call refers to; another method writes the row of a user. -/
inductive Action
  | start (task : Task)
  | next (i : ℕ) (answer : Answer) (page : List ℕ)
  | fault (i : ℕ)
  | cancel (i : ℕ)
  | collect (user : ℤ)
  | setRole (user : ℤ) (row : User)

/-- The call is replaced. -/
def State.put (s : State) (i : ℕ) (task : Task) : State := { s with tasks := s.tasks.set i task }

def step (adminIds : List ℤ) (s : State) : Action → Option State
  | .start task => if task.fresh then some { s with tasks := s.tasks ++ [task] } else none
  | .next i answer page =>
    s.tasks[i]?.bind fun task =>
      (task.advance adminIds s answer page).map fun (effect, task) => (s.apply effect).put i task
  | .fault i =>
    s.tasks[i]?.bind fun task => if task.running then some (s.put i task.fault) else none
  | .cancel i =>
    s.tasks[i]?.bind fun task => if task.running then some (s.put i task.cancel) else none
  | .collect user =>
    if s.tasks.all fun task => task.reference.map Prod.fst ≠ some user then
      some { s with locks := Function.update s.locks user none }
    else none
  | .setRole user row => some (s.apply (.setRole user row))

end VpnBot.Issuing
