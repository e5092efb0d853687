import VpnBot.AccessRequests.Service
import VpnBot.Users.Privileges

/-!
# What the calls about access requests write

One lemma for each body of a transaction, from the methods of `UserService` up, and `does_of_advance`,
which says all that a step can do to the tables.
-/

namespace VpnBot.AccessRequests

open Sys Program Users

variable {adminIds : List ℤ} {fault : Fault} {faults : Faults} {users users' : UserTable} {t t' : Tables}
  {actor target user now : ℤ} {role : UserRole} {request : ℕ}

/-! ### The table of users -/

/-- Each row stays, or has no `blocked_at` afterwards. -/
def Clears (users users' : UserTable) : Prop :=
  ∀ id, users' id = users id ∨ ∃ role, users' id = some ⟨role, none⟩

theorem Clears.refl : Clears users users := fun _ => Or.inl rfl

theorem clears_update : Clears users (Function.update users target (some ⟨role, none⟩)) := by
  intro id
  by_cases h : id = target
  · subst h
    exact Or.inr ⟨role, Function.update_self ..⟩
  · exact Or.inl (Function.update_of_ne h ..)

theorem Clears.trans {users'' : UserTable} (h : Clears users users') (h' : Clears users' users'') :
    Clears users users'' := by
  intro id
  rcases h' id with heq | hrole
  · rw [heq]
    exact h id
  · exact Or.inr hrole

/-- The user of the configuration is a superadmin. -/
def Promoted (adminIds : List ℤ) (user : User) (id : ℤ) : Prop :=
  id ∈ adminIds → user.role = .superadmin

theorem ends_upsertProfile {P : Unit → UserTable → Prop} {Q : UserError → UserTable → Prop}
    (h : ∀ users', Clears users users' → P () users') :
    Ends (UserRepository.upsertProfile target role) P Q users := by
  unfold UserRepository.upsertProfile
  rw [ends_modify]
  apply h
  cases users target with
  | none => exact clears_update
  | some row => exact Clears.refl

theorem ends_ensureUser : Ends (UserService.ensureUser adminIds fault user)
    (fun row users' => Clears users users' ∧ users' user = some row ∧ Promoted adminIds row user)
    (fun _ _ => True) users := by
  unfold UserService.ensureUser
  rw [ends_bind]
  refine ends_call trivial ?_
  show (fault.Spares .getTarget → Ends _ _ _ users) ∧ True
  refine ⟨fun _ => ?_, trivial⟩
  dsimp only
  rw [ends_bind]
  refine ends_call trivial (ends_upsertProfile fun users₁ hupserted => ⟨fun _ => ?_, trivial⟩)
  rw [ends_bind]
  refine ends_call trivial ?_
  show (fault.Spares .getUpserted → Ends _ _ _ users₁) ∧ True
  refine ⟨fun _ => ?_, trivial⟩
  dsimp only
  cases hrow : users₁ user with
  | none => exact trivial
  | some row =>
    dsimp only
    by_cases hadmin : user ∈ adminIds ∧ row.role ≠ .superadmin
    · rw [if_pos hadmin, ends_bind]
      refine ends_call trivial (ends_setRole trivial ⟨fun _ => ?_, trivial⟩)
      refine ends_getUser (fun _ => trivial) fun row' hrow' => ⟨hupserted.trans clears_update, hrow', ?_⟩
      rw [Function.update_self] at hrow'
      obtain rfl := Option.some.inj hrow'
      exact fun _ => rfl
    · rw [if_neg hadmin]
      exact ⟨hupserted, hrow, fun hmem => not_not.1 fun hrole => hadmin ⟨hmem, hrole⟩⟩

theorem ends_assignRole : Ends (UserService.assignRole fault target role)
    (fun _ users' => Clears users users') (fun _ users' => users' = users) users := by
  unfold UserService.assignRole
  rw [ends_transaction, ends_bind]
  refine ends_call rfl (ends_setRole rfl ⟨fun _ => ?_, rfl⟩)
  exact ends_call rfl ⟨fun _ => clears_update, rfl⟩

/-- What an approval does about a user: nothing for one who has access, and otherwise it gives the role to one
who is not blocked, or was blocked before the request. -/
inductive Approves (adminIds : List ℤ) (users : UserTable) (target : ℤ) (requestedAt : Stamp) :
    UserTable → Prop
  | stays (row : User) (hrow : users target = some row)
      (h : target ∈ adminIds ∨ row.role ≠ .pendingUser) :
      Approves adminIds users target requestedAt users
  | approved (row : User) (hrow : users target = some row) (hsuperadmin : row.role ≠ .superadmin)
      (hmoderator : row.role ≠ .moderator)
      (hblock : isBlockedUser row = true → UserService.requestIsAfterBlock row.blockedAt requestedAt = true) :
      Approves adminIds users target requestedAt
        (Function.update users target (some ⟨.approvedUser, none⟩))

theorem ends_approveAccessRequestUser {requestedAt : Stamp} :
    Ends (UserService.approveAccessRequestUser adminIds fault actor target requestedAt)
      (fun _ users' => Approves adminIds users target requestedAt users') (fun _ _ => True) users := by
  unfold UserService.approveAccessRequestUser UserService.requireModeratorOrAdmin
  rw [bind_assoc]
  refine ends_getUser_bind (fun _ => trivial) fun actorUser _ _ => ?_
  rw [bind_assoc]
  refine ends_refuse_bind ⟨⟩ fun _ => ?_
  refine ends_getUser_bind (fun _ => trivial) fun current hcurrent _ => ?_
  by_cases hsuper : target ∈ adminIds ∨ current.role = .superadmin
  · rw [if_pos hsuper]
    refine .stays current hcurrent (hsuper.imp_right fun hrole => ?_)
    rw [hrole]
    exact nofun
  rw [if_neg hsuper]
  refine ends_refuse_bind ⟨⟩ fun hafter => ?_
  by_cases happroved : current.role = .approvedUser ∧ isBlockedUser current = false
  · rw [if_pos happroved]
    refine .stays current hcurrent (Or.inr ?_)
    rw [happroved.1]
    exact nofun
  rw [if_neg happroved]
  by_cases hmoderator : current.role = .moderator
  · rw [if_pos hmoderator]
    refine .stays current hcurrent (Or.inr ?_)
    rw [hmoderator]
    exact nofun
  rw [if_neg hmoderator]
  refine ends_refuse_bind ⟨⟩ fun _ => ?_
  have hwritten : Approves adminIds users target requestedAt
      (Function.update users target (some ⟨.approvedUser, none⟩)) := by
    refine .approved current hcurrent (fun hrole => hsuper (Or.inr hrole)) hmoderator fun hblocked => ?_
    rw [hblocked] at hafter
    simpa using hafter
  rw [ends_bind]
  refine ends_call trivial (ends_setRole trivial ⟨fun _ => ?_, trivial⟩)
  exact ends_getUser_bind (fun _ => trivial) fun _ _ _ => hwritten

theorem ends_rejectAccessRequestUser : Ends (UserService.rejectAccessRequestUser fault actor target)
    (fun _ users' => users' = users) (fun _ _ => True) users := by
  unfold UserService.rejectAccessRequestUser UserService.requireModeratorOrAdmin
  rw [bind_assoc]
  refine ends_getUser_bind (fun _ => trivial) fun actorUser _ _ => ?_
  rw [bind_assoc]
  refine ends_refuse_bind ⟨⟩ fun _ => ?_
  rw [pure_bind, ends_bind]
  refine ends_call trivial ?_
  show (fault.Spares .getTarget → Ends _ _ _ users) ∧ True
  refine ⟨fun _ => ?_, trivial⟩
  dsimp only
  cases users target with
  | none => exact rfl
  | some row =>
    dsimp only
    split
    · exact rfl
    · exact ends_refuse_bind ⟨⟩ fun _ => rfl

/-! ### The transactions on requests -/

open AccessRequestRepository

section Tables

variable {α : Type} {P : α → Tables → Prop} {Q : RequestError → Tables → Prop}

theorem ends_onUsers {p : UserM α} : Ends (onUsers p) P Q t ↔
    Ends p (fun a users => P a { t with users }) (fun e users => Q (.users e) { t with users }) t.users :=
  ends_zoom

theorem ends_await {p : TablesM α} {c : RequestCall} (hraise : Q .raised t) (hp : Ends p P Q t) :
    Ends (await faults c p) P Q t := by
  unfold await
  split
  · exact hraise
  · exact hp

end Tables

/-- The tables after a `create_or_get_request`. -/
def Files (adminIds : List ℤ) (t : Tables) (user now : ℤ) (t' : Tables) : Prop :=
  Clears t.users t'.users ∧ (t'.requests = t.requests ∨
    user ∉ adminIds ∧ pendingOf t.requests user = [] ∧
      t'.requests = t.requests.insert ⟨t.requests.next, user, .pending, now⟩ rfl)

theorem ends_create : Ends (create user now)
    (fun _ t' => pendingOf t.requests user = [] ∧
      t' = { t with requests := t.requests.insert ⟨t.requests.next, user, .pending, now⟩ rfl })
    (fun _ t' => t' = t) t := by
  unfold AccessRequestRepository.create
  rw [ends_bind, ends_get]
  split
  · rename_i hempty
    exact ⟨List.isEmpty_iff.1 hempty, rfl⟩
  · exact rfl

theorem ends_createPendingIdempotent : Ends (createPendingIdempotent faults user now)
    (fun _ t' => t' = t ∨ pendingOf t.requests user = [] ∧
      t' = { t with requests := t.requests.insert ⟨t.requests.next, user, .pending, now⟩ rfl })
    (fun _ _ => True) t := by
  unfold createPendingIdempotent
  rw [ends_tryCatch, ends_map]
  refine ends_await trivial (ends_create.mono (fun _ _ h => Or.inr h) fun error t' ht' => ?_)
  subst ht'
  cases error with
  | pendingExists =>
    dsimp only
    rw [ends_bind]
    refine ends_await trivial ?_
    unfold getPendingForUser
    rw [ends_map, ends_get]
    cases (pendingOf t'.requests user).maxOn? AccessRequest.requestedAt with
    | none => exact trivial
    | some pending => exact Or.inl rfl
  | _ => exact trivial

theorem ends_onlyIf {condition : Bool} {p : TablesM Unit} {P : Unit → Tables → Prop}
    {Q : RequestError → Tables → Prop} (h : condition = true → Ends p P Q t)
    (hnot : condition = false → P () t) : Ends (onlyIf condition p) P Q t := by
  unfold onlyIf
  cases condition with
  | true => exact h rfl
  | false => exact hnot rfl

theorem ends_createOrGetRequest :
    Ends (AccessApprovalService.createOrGetRequest adminIds faults user now)
      (fun _ t' => Files adminIds t user now t') (fun _ _ => True) t := by
  unfold AccessApprovalService.createOrGetRequest
  rw [ends_bind, ends_onUsers]
  refine ends_ensureUser.mono ?_ fun _ _ _ => trivial
  rintro row users' ⟨hclears, -, hpromoted⟩
  have hsame : Files adminIds t user now { t with users := users' } := ⟨hclears, Or.inl rfl⟩
  by_cases haccess : row.role = .superadmin ∨ (row.role = .approvedUser ∨ row.role = .moderator) ∧
      isBlockedUser row = false
  · rw [if_pos haccess]
    exact hsame
  rw [if_neg haccess, ends_bind]
  refine ends_await trivial ?_
  unfold getPendingForUser
  rw [ends_map, ends_get]
  cases (pendingOf t.requests user).maxOn? AccessRequest.requestedAt with
  | some pending => exact hsame
  | none =>
    dsimp only
    rw [ends_bind]
    refine ends_createPendingIdempotent.mono ?_ fun _ _ _ => trivial
    rintro ⟨created, isNew⟩ t' ht'
    have hfiles : Files adminIds t user now t' := by
      rcases ht' with rfl | ⟨hnone, rfl⟩
      · exact hsame
      · exact ⟨hclears, Or.inr ⟨fun hmem => haccess (Or.inl (hpromoted hmem)), hnone, rfl⟩⟩
    dsimp only
    rw [ends_bind]
    exact ends_onlyIf (fun _ => ends_await trivial hfiles) fun _ => hfiles

/-- The status that a decision gives. -/
def Verdict.status : Verdict → AccessRequestStatus
  | approve => .approved
  | reject => .rejected

/-- What a decision does about the user. -/
def Verdict.Effect (adminIds : List ℤ) : Verdict → AccessRequest → UserTable → UserTable → Prop
  | approve, row, users, users' =>
    Approves adminIds users row.telegramUserId (some row.requestedAt) users'
  | reject, _, users, users' => users' = users

theorem id_withStatus (status : AccessRequestStatus) (r : AccessRequest) : { r with status }.id = r.id := rfl

/-- The tables after a decision about a pending request. -/
def Decided (t : Tables) (status : AccessRequestStatus)
    (effect : AccessRequest → UserTable → UserTable → Prop) (request : ℕ) (t' : Tables) : Prop :=
  ∃ row, t.requests.find? request = some row ∧ row.status = .pending ∧ effect row t.users t'.users ∧
    t'.requests = t.requests.update request (fun r => { r with status }) (id_withStatus status)

theorem ends_getRequest {c : RequestCall} {P : AccessRequest → Tables → Prop}
    {Q : RequestError → Tables → Prop} (hraise : ∀ e, Q e t)
    (h : ∀ row, t.requests.find? request = some row → P row t) :
    Ends (AccessApprovalService.getRequest faults c request) P Q t := by
  unfold AccessApprovalService.getRequest
  rw [ends_bind]
  refine ends_await (hraise _) ?_
  unfold getById
  rw [ends_map, ends_get]
  cases hrow : t.requests.find? request with
  | none => exact hraise _
  | some row => exact h row hrow

theorem ends_setStatusIfPending {status : AccessRequestStatus} {row : AccessRequest}
    {P : Bool → Tables → Prop} {Q : RequestError → Tables → Prop}
    (hrow : t.requests.find? request = some row) (hno : P false t)
    (hyes : row.status = .pending → P true
      { t with requests := t.requests.update request (fun r => { r with status }) fun _ => rfl }) :
    Ends (setStatusIfPending request status) P Q t := by
  unfold setStatusIfPending
  rw [ends_bind, ends_get, hrow]
  split
  · rename_i hpending
    exact hyes (of_decide_eq_true hpending)
  · exact hno

theorem ends_decide {status : AccessRequestStatus} {decideUser : AccessRequest → TablesM Unit}
    {effect : AccessRequest → UserTable → UserTable → Prop}
    (heffect : ∀ row t, Ends (decideUser row)
      (fun _ t' => effect row t.users t'.users ∧ t'.requests = t.requests) (fun _ _ => True) t) :
    Ends (AccessApprovalService.decide faults status decideUser request)
      (fun answer t' => answer.2 = false ∧ t' = t ∨ answer.2 = true ∧ Decided t status effect request t')
      (fun _ _ => True) t := by
  unfold AccessApprovalService.decide
  rw [ends_bind]
  refine ends_getRequest (fun _ => trivial) fun row hrow => ?_
  rw [ends_bind]
  refine ends_await trivial (ends_setStatusIfPending hrow ?_ fun hpending => ?_)
  · -- the request is not pending any more
    rw [ends_bind]
    refine ends_onlyIf nofun fun _ => ?_
    rw [ends_bind]
    exact ends_getRequest (fun _ => trivial) fun _ _ => Or.inl ⟨rfl, rfl⟩
  · rw [ends_bind]
    refine ends_onlyIf (fun _ => ?_) nofun
    rw [ends_bind]
    refine (heffect row _).mono ?_ fun _ _ _ => trivial
    rintro - t' ⟨husers, hrequests⟩
    refine ends_await trivial ?_
    rw [ends_pure, ends_bind]
    exact ends_getRequest (fun _ => trivial) fun _ _ =>
      Or.inr ⟨rfl, row, hrow, hpending, husers, hrequests⟩

theorem ends_body {verdict : Verdict} : Ends (verdict.body adminIds faults actor request)
    (fun answer t' => answer.2 = false ∧ t' = t ∨
      answer.2 = true ∧ Decided t verdict.status (verdict.Effect adminIds) request t')
    (fun _ _ => True) t := by
  cases verdict with
  | approve =>
    refine ends_decide fun row t => ?_
    rw [ends_map, ends_onUsers]
    exact ends_approveAccessRequestUser.mono (fun _ _ h => ⟨h, rfl⟩) fun _ _ _ => trivial
  | reject =>
    refine ends_decide fun row t => ?_
    rw [ends_map, ends_onUsers]
    exact ends_rejectAccessRequestUser.mono (fun _ _ h => ⟨h, rfl⟩) fun _ _ _ => trivial

/-! ### Steps -/

/-- The request that the call decides about. -/
def Task.decision : Task → Option (Verdict × ℕ)
  | .decide verdict _ request _ => some (verdict, request)
  | _ => none

/-- What a call that goes on does to the tables. -/
inductive Does (adminIds : List ℤ) (faults : Faults) (s : State) : Task → State → Prop
  | nothing (task : Task) : Does adminIds faults s task s
  | files (user now : ℤ) (t' : Tables) (h : Files adminIds s.tables user now t') :
      Does adminIds faults s (.create user (.committing now)) { s with tables := t' }
  | decides (verdict : Verdict) (actor : ℤ) (request : ℕ) (t' : Tables)
      (h : Decided s.tables verdict.status (verdict.Effect adminIds) request t') :
      Does adminIds faults s (.decide verdict actor request .committing)
        { s with tables := t', decisions := s.decisions ++ [request] }
  | blocks (actor target now : ℤ) (row : User) (hrow : s.tables.users target = some row)
      (hfault : faults.users ≠ some (.setRole, false)) :
      Does adminIds faults s (.block actor target (.writing now))
        { s with
          tables := { s.tables with
            users := Function.update s.tables.users target (some ⟨.blockedUser, some (some now)⟩) }
          blockedBefore := Function.update s.blockedBefore target s.tables.requests.next }
  | assigns (task : Task) (users' : UserTable) (htask : task.decision = none)
      (h : Clears s.tables.users users') :
      Does adminIds faults s task { s with tables := { s.tables with users := users' } }

variable {s s' : State} {task task' : Task}

theorem result_transaction {α : Type} {p : TablesM α} {P : Option α → Tables → Prop}
    (h : Ends p (fun a => P (some a)) (fun _ _ => True) t) (hrollback : P none t) :
    P (result (transaction p) t).1 (result (transaction p) t).2 := by
  refine Ends.result (R := P) (ends_transaction.2 (h.mono (fun _ _ ha => ha) fun _ _ _ => hrollback))

theorem does_commit : Does adminIds faults s (.create user (.committing now))
    (s.commit (AccessApprovalService.createOrGetRequest adminIds faults user now)) := by
  refine .files user now _ ?_
  exact result_transaction (P := fun _ t' => Files adminIds s.tables user now t') ends_createOrGetRequest
    ⟨Clears.refl, Or.inl rfl⟩

theorem does_commitDecision {verdict : Verdict} :
    Does adminIds faults s (.decide verdict actor request .committing)
      (s.commitDecision request (verdict.body adminIds faults actor request)) := by
  let body := verdict.body adminIds faults actor request
  have hbody : Ends body (fun answer t' => answer.2 = false ∧ t' = s.tables ∨ answer.2 = true ∧
      Decided s.tables verdict.status (verdict.Effect adminIds) request t') (fun _ _ => True) s.tables :=
    ends_body
  have hresult := result_transaction
    (P := fun answer t' => answer.any Prod.snd = false ∧ t' = s.tables ∨ answer.any Prod.snd = true ∧
      Decided s.tables verdict.status (verdict.Effect adminIds) request t') hbody (Or.inl ⟨rfl, rfl⟩)
  unfold State.commitDecision
  dsimp only
  rcases hresult with ⟨hanswer, htables⟩ | ⟨hanswer, hdecided⟩
  · rw [hanswer, htables]
    exact .nothing _
  · rw [hanswer]
    exact .decides verdict actor request _ hdecided

theorem does_block (hfault : faults.users ≠ some (.setRole, false)) :
    Does adminIds faults s (.block actor target (.writing now)) (s.block target now) := by
  unfold State.block
  cases hrow : s.tables.users target with
  | none => exact .nothing _
  | some row =>
    have hwrite : (result (UserRepository.setRole target .blockedUser (some (some now))) s.tables.users).2 =
        Function.update s.tables.users target (some ⟨.blockedUser, some (some now)⟩) := by
      refine Ends.result (R := fun _ users' => users' = Function.update s.tables.users target
        (some ⟨.blockedUser, some (some now)⟩)) ?_
      unfold UserRepository.setRole UserRepository.getById
      rw [ends_bind, ends_map, ends_get, hrow]
      exact rfl
    dsimp only
    rw [hwrite]
    exact .blocks actor target now row hrow hfault

theorem does_assign (htask : task.decision = none) :
    Does adminIds faults s task (s.assign (UserService.assignRole fault target role)) := by
  refine .assigns task _ htask ?_
  refine Ends.result (R := fun _ users' => Clears s.tables.users users') ?_
  refine ends_assignRole.mono (fun _ _ h => h) fun _ users' h => ?_
  rw [h]
  exact Clears.refl

/-- The calls that only read go on. -/
theorem does_of_advanceAssign {askActor : UserM User} {checks : UserM Unit} {pc pc' : AssignPc}
    (htask : task.decision = none)
    (h : advanceAssign s faults askActor checks target role pc = some (s', pc')) :
    Does adminIds faults s task s' := by
  cases pc with
  | committing =>
    cases h
    exact does_assign htask
  | ended => cases h
  | _ =>
    simp only [advanceAssign, Option.ite_none_right_eq_some, Option.some.injEq] at h
    obtain ⟨-, h⟩ := h
    cases h
    exact .nothing task

theorem does_of_advanceBlock {pc pc' : BlockPc}
    (h : advanceBlock adminIds s faults actor target pc = some (s', pc')) :
    Does adminIds faults s (.block actor target pc) s' := by
  cases pc with
  | start =>
    simp only [advanceBlock, Option.ite_none_right_eq_some] at h
    obtain ⟨-, h⟩ := h
    split at h <;> cases h <;> exact .nothing _
  | writing now =>
    simp only [advanceBlock, Option.ite_none_right_eq_some, Option.some.injEq, Prod.mk.injEq] at h
    obtain ⟨-, rfl, -⟩ := h
    split
    · exact .nothing _
    · rename_i hfault
      exact does_block hfault
  | checked actorUser =>
    simp only [advanceBlock, Option.ite_none_right_eq_some] at h
    cases h.2
    exact .nothing _
  | owning actorUser =>
    simp only [advanceBlock, Option.ite_none_right_eq_some] at h
    cases h.2
    exact .nothing _
  | ended => cases h
  | _ =>
    cases h
    exact .nothing _

/-- **All that a call can do to the tables when it goes on.** -/
theorem does_of_advance (h : task.advance adminIds s faults = some (s', task')) :
    Does adminIds faults s task s' := by
  cases task with
  | create user pc =>
    obtain ⟨⟨m, pc'⟩, hadvance, heq⟩ := Option.map_eq_some_iff.1 h
    cases heq
    cases pc with
    | start =>
      simp only [advanceCreate, Option.ite_none_right_eq_some] at hadvance
      cases hadvance.2
      exact .nothing _
    | owning =>
      cases hadvance
      exact .nothing _
    | committing now =>
      cases hadvance
      exact does_commit
    | ended => cases hadvance
  | decide verdict actor request pc =>
    obtain ⟨⟨m, pc'⟩, hadvance, heq⟩ := Option.map_eq_some_iff.1 h
    cases heq
    cases pc with
    | committing =>
      cases hadvance
      exact does_commitDecision
    | ended => cases hadvance
    | _ =>
      simp only [advanceDecide, Option.ite_none_right_eq_some] at hadvance
      cases hadvance.2
      exact .nothing _
  | block actor target pc =>
    obtain ⟨⟨m, pc'⟩, hadvance, heq⟩ := Option.map_eq_some_iff.1 h
    cases heq
    exact does_of_advanceBlock hadvance
  | unblock actor target pc =>
    obtain ⟨⟨m, pc'⟩, hadvance, heq⟩ := Option.map_eq_some_iff.1 h
    cases heq
    exact does_of_advanceAssign rfl hadvance
  | setRole actor target role pc =>
    obtain ⟨⟨m, pc'⟩, hadvance, heq⟩ := Option.map_eq_some_iff.1 h
    cases heq
    exact does_of_advanceAssign rfl hadvance

end VpnBot.AccessRequests
