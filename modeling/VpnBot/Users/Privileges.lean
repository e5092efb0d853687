import VpnBot.Users.Roles

/-!
# Who may change whose role

`MayWrite` says, operation by operation, which role its guards let it write; `ends_operation` connects
it to the methods.  From these guards follows what the roles are there to protect (`PrivilegeLaw`),
but for `unblock_user`, the one method without a guard for a moderator's target: a run is lawful
exactly when no moderator unblocks a moderator (`isLawful_iff`).
-/

namespace VpnBot.Users

open Sys Program

/-! ### What awaited calls leave behind -/

section Calls

variable {α : Type} {p : UserM α} {P : α → UserTable → Prop} {Q : UserError → UserTable → Prop}
  {fault : Fault} {c : Call} {users : UserTable} {id : ℤ} {role : UserRole}

/-- The call does not raise. -/
def Fault.Spares (fault : Fault) (c : Call) : Prop := ∀ applied, fault ≠ some (c, applied)

instance : Decidable (fault.Spares c) :=
  inferInstanceAs (Decidable (∀ applied, fault ≠ some (c, applied)))

theorem ends_refuse_bind {condition : Bool} {error : UserError} {f : Unit → UserM α}
    (hraise : Q error users) (hf : condition = false → Ends (f ()) P Q users) :
    Ends (refuse condition error >>= f) P Q users := by
  rw [ends_bind]
  cases condition
  · exact hf rfl
  · exact hraise

theorem ends_refuse_of_false {condition : Bool} {error : UserError} {f : Unit → UserM α}
    (hcondition : condition = false) (hf : Ends (f ()) P Q users) :
    Ends (refuse condition error >>= f) P Q users := by
  rw [hcondition, ends_bind]
  exact hf

theorem ends_call (hraise : Q .raised users)
    (hp : Ends p (fun a users' => (fault.Spares c → P a users') ∧ Q .raised users') Q users) :
    Ends (call fault c p) P Q users := by
  unfold call
  by_cases hbefore : fault = some (c, false)
  · rw [if_pos hbefore]
    exact hraise
  · rw [if_neg hbefore, ends_bind]
    refine hp.mono ?_ fun _ _ hq => hq
    rintro a users' ⟨hreturn, hafter⟩
    by_cases happlied : fault = some (c, true)
    · rw [if_pos happlied]
      exact hafter
    · rw [if_neg happlied]
      apply hreturn
      intro applied
      cases applied
      · exact hbefore
      · exact happlied

theorem ends_call_of_spares (hspares : fault.Spares c) (hp : Ends p P Q users) :
    Ends (call fault c p) P Q users := by
  unfold call
  rw [if_neg (hspares false), ends_bind]
  simp only [if_neg (hspares true)]
  exact hp

theorem ends_getUser_bind {f : User → UserM α} (hraise : ∀ e, Q e users)
    (hf : ∀ user, users id = some user → fault.Spares c → Ends (f user) P Q users) :
    Ends (UserService.getUser fault c id >>= f) P Q users := by
  unfold UserService.getUser
  rw [ends_bind, ends_bind]
  apply ends_call (hraise _)
  refine ⟨fun hspares => ?_, hraise _⟩
  dsimp only
  cases hid : users id with
  | none => exact hraise _
  | some user => exact hf user hid hspares

theorem ends_getById {P : Option User → UserTable → Prop} :
    Ends (UserRepository.getById id) P Q users ↔ P (users id) users := Iff.rfl

theorem ends_getUser_of_spares {f : User → UserM α} {user : User} (hid : users id = some user)
    (hspares : fault.Spares c) (hf : Ends (f user) P Q users) :
    Ends (UserService.getUser fault c id >>= f) P Q users := by
  unfold UserService.getUser
  rw [ends_bind, ends_bind]
  apply ends_call_of_spares hspares
  rw [ends_getById, hid]
  exact hf

theorem ends_getUser {P : User → UserTable → Prop} (hraise : ∀ e, Q e users)
    (hfound : ∀ user, users id = some user → P user users) :
    Ends (UserService.getUser fault c id) P Q users := by
  unfold UserService.getUser
  rw [ends_bind]
  apply ends_call (hraise _)
  refine ⟨fun _ => ?_, hraise _⟩
  dsimp only
  cases hid : users id with
  | none => exact hraise _
  | some user => exact hfound user hid

theorem ends_setRole {P : Unit → UserTable → Prop} {blockedAt : Option Stamp}
    (hraise : Q .notFound users) (hwrite : P () (Function.update users id (some ⟨role, blockedAt⟩))) :
    Ends (UserRepository.setRole id role blockedAt) P Q users := by
  unfold UserRepository.setRole
  rw [ends_bind, ends_getById]
  cases users id with
  | none => exact hraise
  | some user => exact hwrite

end Calls

/-! ### What the guards let through -/

/-- The table with another role for the user. -/
def Assigned (users : UserTable) (id : ℤ) (role : UserRole) (users' : UserTable) : Prop :=
  ∃ blockedAt, users' = Function.update users id (some ⟨role, blockedAt⟩)

/-- No role is written, or one that may be. -/
def Writes (may : ℤ → UserRole → Prop) (users users' : UserTable) : Prop :=
  users' = users ∨ ∃ id role, may id role ∧ Assigned users id role users'

namespace Operation

/-- The calls up to the end of the transaction of `unblock_user` return. -/
def CommitSpared (fault : Fault) : Prop :=
  fault.Spares .getActor ∧ fault.Spares .getTarget ∧ fault.Spares .setRole ∧
    fault.Spares .writeAudit

instance (fault : Fault) : Decidable (CommitSpared fault) := inferInstanceAs (Decidable (_ ∧ _))

/-- What the guards of an operation have checked when it writes a role. -/
def MayWrite (adminIds : List ℤ) (fault : Fault) (users : UserTable) :
    Operation → ℤ → UserRole → Prop
  | setRole actor target role, id, written =>
    id = target ∧ written = role ∧ roleOf users actor = some .superadmin ∧
      (roleOf users target = some .superadmin → role = .superadmin)
  | approveAccessRequestUser _ target _, id, written =>
    id = target ∧ written = .approvedUser ∧ roleOf users target ≠ some .superadmin ∧
      roleOf users target ≠ some .moderator
  | blockUser actor target _, id, written =>
    id = target ∧ written = .blockedUser ∧ roleOf users target ≠ some .superadmin ∧
      (roleOf users actor = some .moderator → roleOf users target ≠ some .moderator)
  | unblockUser _ target, id, written =>
    id = target ∧ written = .approvedUser ∧ roleOf users target ≠ some .superadmin ∧
      target ∉ adminIds ∧ CommitSpared fault
  | ensureUser user, id, written =>
    id = user ∧ (written = .superadmin ∧ user ∈ adminIds ∨
      written = .pendingUser ∧ users user = none)

end Operation

section Operations

variable {adminIds : List ℤ} {fault : Fault} {users : UserTable}

theorem roleOf_eq_iff {id : ℤ} {user : User} {role : UserRole} (h : users id = some user) :
    roleOf users id = some role ↔ user.role = role := by
  rw [roleOf, h]
  exact Option.some_inj

theorem ends_setRole_service (actor target : ℤ) (role : UserRole) :
    let may := (Operation.setRole actor target role).MayWrite adminIds fault users
    Ends (UserService.setRole adminIds fault actor target role)
      (fun _ => Writes may users) (fun _ => Writes may users) users := by
  intro may
  have hstay : Writes may users users := Or.inl rfl
  unfold UserService.setRole UserService.requireSuperadmin
  rw [bind_assoc]
  refine ends_getUser_bind (fun _ => hstay) fun actorUser hactor _ => ?_
  rw [bind_assoc]
  refine ends_refuse_bind hstay fun hsuper => ?_
  refine ends_refuse_bind hstay fun hblocked => ?_
  refine ends_refuse_bind hstay fun hadmin => ?_
  refine ends_getUser_bind (fun _ => hstay) fun current htarget _ => ?_
  refine ends_refuse_bind hstay fun hcurrent => ?_
  have hmay : may target role := by
    refine ⟨rfl, rfl, ?_, ?_⟩
    · rw [roleOf_eq_iff hactor]
      simpa using hsuper
    · rw [roleOf_eq_iff htarget]
      simpa using hcurrent
  rw [ends_transaction, ends_bind]
  apply ends_call hstay
  apply ends_setRole hstay
  refine ⟨fun _ => ?_, hstay⟩
  apply ends_call hstay
  exact ⟨fun _ => Or.inr ⟨target, role, hmay, none, rfl⟩, hstay⟩

theorem ends_approveAccessRequestUser (actor target : ℤ) (requestedAt : Stamp) :
    let may := (Operation.approveAccessRequestUser actor target requestedAt).MayWrite adminIds fault
      users
    Ends (UserService.approveAccessRequestUser adminIds fault actor target requestedAt)
      (fun _ => Writes may users) (fun _ => Writes may users) users := by
  intro may
  have hstay : Writes may users users := Or.inl rfl
  unfold UserService.approveAccessRequestUser UserService.requireModeratorOrAdmin
  rw [bind_assoc]
  refine ends_getUser_bind (fun _ => hstay) fun actorUser hactor _ => ?_
  rw [bind_assoc]
  refine ends_refuse_bind hstay fun _ => ?_
  refine ends_getUser_bind (fun _ => hstay) fun current htarget _ => ?_
  by_cases hsuper : target ∈ adminIds ∨ current.role = .superadmin
  · rw [if_pos hsuper]
    exact hstay
  rw [if_neg hsuper]
  refine ends_refuse_bind hstay fun _ => ?_
  by_cases happroved : current.role = .approvedUser ∧ isBlockedUser current = false
  · rw [if_pos happroved]
    exact hstay
  rw [if_neg happroved]
  by_cases hmoderator : current.role = .moderator
  · rw [if_pos hmoderator]
    exact hstay
  rw [if_neg hmoderator]
  refine ends_refuse_bind hstay fun _ => ?_
  have hmay : may target .approvedUser := by
    refine ⟨rfl, rfl, ?_, ?_⟩
    · rw [Ne, roleOf_eq_iff htarget]
      exact fun heq => hsuper (Or.inr heq)
    · rw [Ne, roleOf_eq_iff htarget]
      exact hmoderator
  have hwritten : Writes may users (Function.update users target (some ⟨.approvedUser, none⟩)) :=
    Or.inr ⟨target, .approvedUser, hmay, none, rfl⟩
  rw [ends_bind]
  apply ends_call hstay
  apply ends_setRole hstay
  refine ⟨fun _ => ?_, hwritten⟩
  exact ends_getUser_bind (fun _ => hwritten) fun _ _ _ => hwritten

theorem ends_blockUser (actor target : ℤ) (now : Stamp) :
    let may := (Operation.blockUser actor target now).MayWrite adminIds fault users
    Ends (UserService.blockUser adminIds fault actor target now)
      (fun _ => Writes may users) (fun _ => Writes may users) users := by
  intro may
  have hstay : Writes may users users := Or.inl rfl
  unfold UserService.blockUser UserService.requireModeratorOrAdmin
  rw [bind_assoc]
  refine ends_getUser_bind (fun _ => hstay) fun actorUser hactor _ => ?_
  rw [bind_assoc]
  refine ends_refuse_bind hstay fun _ => ?_
  refine ends_refuse_bind hstay fun _ => ?_
  refine ends_getUser_bind (fun _ => hstay) fun targetUser htarget _ => ?_
  refine ends_refuse_bind hstay fun hsuper => ?_
  refine ends_refuse_bind hstay fun hmoderators => ?_
  have hmay : may target .blockedUser := by
    refine ⟨rfl, rfl, ?_, ?_⟩
    · rw [Ne, roleOf_eq_iff htarget]
      simpa using hsuper
    · rw [Ne, roleOf_eq_iff hactor, roleOf_eq_iff htarget]
      simpa using hmoderators
  have hwritten : Writes may users (Function.update users target (some ⟨.blockedUser, some now⟩)) :=
    Or.inr ⟨target, .blockedUser, hmay, some now, rfl⟩
  rw [ends_bind]
  apply ends_call hstay
  apply ends_setRole hstay
  refine ⟨fun _ => ?_, hwritten⟩
  exact ends_getUser (fun _ => hwritten) fun _ _ => hwritten

theorem ends_unblockUser (actor target : ℤ) :
    let may := (Operation.unblockUser actor target).MayWrite adminIds fault users
    Ends (UserService.unblockUser adminIds fault actor target)
      (fun _ => Writes may users) (fun _ => Writes may users) users := by
  intro may
  have hstay : Writes may users users := Or.inl rfl
  unfold UserService.unblockUser UserService.requireModeratorOrAdmin
  rw [bind_assoc]
  refine ends_getUser_bind (fun _ => hstay) fun actorUser hactor hgetActor => ?_
  rw [bind_assoc]
  refine ends_refuse_bind hstay fun _ => ?_
  refine ends_refuse_bind hstay fun hadmin => ?_
  refine ends_getUser_bind (fun _ => hstay) fun targetUser htarget hgetTarget => ?_
  refine ends_refuse_bind hstay fun hsuper => ?_
  rw [ends_bind, ends_transaction, ends_bind]
  apply ends_call hstay
  apply ends_setRole hstay
  refine ⟨fun hsetRole => ?_, hstay⟩
  apply ends_call hstay
  refine ⟨fun hwriteAudit => ?_, hstay⟩
  have hmay : may target .approvedUser := by
    refine ⟨rfl, rfl, ?_, of_decide_eq_false hadmin, hgetActor, hgetTarget, hsetRole, hwriteAudit⟩
    rw [Ne, roleOf_eq_iff htarget]
    simpa using hsuper
  have hwritten : Writes may users (Function.update users target (some ⟨.approvedUser, none⟩)) :=
    Or.inr ⟨target, .approvedUser, hmay, none, rfl⟩
  exact ends_getUser (fun _ => hwritten) fun _ _ => hwritten

theorem ends_upsertProfile {P : Unit → UserTable → Prop} {Q : UserError → UserTable → Prop} {id : ℤ}
    {role : UserRole} (hnew : users id = none → P () (Function.update users id (some ⟨role, none⟩)))
    (hold : ∀ user, users id = some user → P () users) :
    Ends (UserRepository.upsertProfile id role) P Q users := by
  unfold UserRepository.upsertProfile
  rw [ends_modify]
  cases hid : users id with
  | none => exact hnew hid
  | some user => exact hold user hid

/-- The writes of `ensure_user` after the profile. -/
theorem ends_afterUpsert {may : ℤ → UserRole → Prop} {before : UserTable} {id : ℤ}
    (hwrites : Writes may before users)
    (hmay : id ∈ adminIds → roleOf users id ≠ some .superadmin → users = before ∧ may id .superadmin) :
    Ends (do
        match ← call fault .getUpserted (UserRepository.getById id) with
        | none => throw .upsertFailed
        | some user =>
          if id ∈ adminIds ∧ user.role ≠ .superadmin then do
            call fault .setRole (UserRepository.setRole id .superadmin none)
            UserService.getUser fault .getResult id
          else pure user)
      (fun _ => Writes may before) (fun _ => Writes may before) users := by
  rw [ends_bind]
  apply ends_call hwrites
  refine ⟨fun _ => ?_, hwrites⟩
  dsimp only
  cases hid : users id with
  | none => exact hwrites
  | some user =>
    dsimp only
    by_cases hadmin : id ∈ adminIds ∧ user.role ≠ .superadmin
    · rw [if_pos hadmin, ends_bind]
      obtain ⟨rfl, hallowed⟩ := hmay hadmin.1 (by rw [Ne, roleOf_eq_iff hid]; exact hadmin.2)
      have hwritten : Writes may users (Function.update users id (some ⟨.superadmin, none⟩)) :=
        Or.inr ⟨id, .superadmin, hallowed, none, rfl⟩
      apply ends_call hwrites
      apply ends_setRole hwrites
      refine ⟨fun _ => ?_, hwritten⟩
      exact ends_getUser (fun _ => hwritten) fun _ _ => hwritten
    · rw [if_neg hadmin]
      exact hwrites

theorem ends_ensureUser (id : ℤ) :
    let may := (Operation.ensureUser id).MayWrite adminIds fault users
    Ends (UserService.ensureUser adminIds fault id)
      (fun _ => Writes may users) (fun _ => Writes may users) users := by
  intro may
  have hstay : Writes may users users := Or.inl rfl
  unfold UserService.ensureUser
  rw [ends_bind]
  apply ends_call hstay
  refine ⟨fun _ => ?_, hstay⟩
  rw [ends_bind]
  apply ends_call hstay
  apply ends_upsertProfile
  · intro hnew
    have hmay : may id (if id ∈ adminIds then .superadmin else .pendingUser) := by
      refine ⟨rfl, ?_⟩
      by_cases hadmin : id ∈ adminIds
      · exact Or.inl ⟨if_pos hadmin, hadmin⟩
      · exact Or.inr ⟨if_neg hadmin, hnew⟩
    have hwritten : Writes may users (Function.update users id
        (some ⟨if id ∈ adminIds then .superadmin else .pendingUser, none⟩)) :=
      Or.inr ⟨id, _, hmay, none, rfl⟩
    dsimp only
    rw [hnew]
    refine ⟨fun _ => ends_afterUpsert hwritten fun hadmin hrole => ?_, hwritten⟩
    rw [roleOf, Function.update_self, if_pos hadmin] at hrole
    exact absurd rfl hrole
  · intro user hold
    exact ⟨fun _ => ends_afterUpsert hstay fun hadmin _ => ⟨rfl, rfl, Or.inl ⟨rfl, hadmin⟩⟩, hstay⟩

theorem after_of_ends {operation : Operation} {R : UserTable → Prop}
    (h : Ends (operation.run adminIds fault) (fun _ => R) (fun _ => R) users) :
    R (operation.after adminIds fault users) := by
  unfold Ends at h
  unfold Operation.after
  cases hrun : operation.run adminIds fault users <;> rw [hrun] at h <;> exact h

/-- **What an operation writes, its guards have checked.** -/
theorem ends_operation (operation : Operation) :
    Writes (operation.MayWrite adminIds fault users) users (operation.after adminIds fault users) := by
  have hends : Ends (operation.run adminIds fault)
      (fun _ => Writes (operation.MayWrite adminIds fault users) users)
      (fun _ => Writes (operation.MayWrite adminIds fault users) users) users := by
    cases operation with
    | setRole actor target role => exact ends_setRole_service actor target role
    | approveAccessRequestUser actor target requestedAt =>
      exact ends_map _ |>.2 (ends_approveAccessRequestUser actor target requestedAt)
    | blockUser actor target now => exact ends_map _ |>.2 (ends_blockUser actor target now)
    | unblockUser actor target => exact ends_map _ |>.2 (ends_unblockUser actor target)
    | ensureUser id => exact ends_map _ |>.2 (ends_ensureUser id)
  exact after_of_ends hends

/-- **The one missing guard**: nothing stops a moderator from unblocking a moderator. -/
theorem after_unblockUser {actor target : ℤ} (hactor : roleOf users actor = some .moderator)
    (htarget : roleOf users target = some .moderator) (hadmin : target ∉ adminIds)
    (hspared : Operation.CommitSpared fault) :
    roleOf ((Operation.unblockUser actor target).after adminIds fault users) target =
      some .approvedUser := by
  obtain ⟨actorUser, hactorUser, hactorRole⟩ := Option.map_eq_some_iff.1 hactor
  obtain ⟨targetUser, htargetUser, htargetRole⟩ := Option.map_eq_some_iff.1 htarget
  obtain ⟨hgetActor, hgetTarget, hsetRole, hwriteAudit⟩ := hspared
  apply after_of_ends (R := fun users' => roleOf users' target = some .approvedUser)
  refine (ends_map _).2 ?_
  unfold UserService.unblockUser UserService.requireModeratorOrAdmin
  rw [bind_assoc]
  apply ends_getUser_of_spares hactorUser hgetActor
  rw [bind_assoc]
  apply ends_refuse_of_false (by rw [hactorRole]; rfl)
  apply ends_refuse_of_false (decide_eq_false hadmin)
  apply ends_getUser_of_spares htargetUser hgetTarget
  apply ends_refuse_of_false (by rw [htargetRole]; rfl)
  have hwritten : roleOf (Function.update users target (some ⟨.approvedUser, none⟩)) target =
      some .approvedUser := by
    rw [roleOf, Function.update_self]
    rfl
  rw [ends_bind, ends_transaction, ends_bind]
  apply ends_call_of_spares hsetRole
  unfold UserRepository.setRole
  rw [ends_bind]
  show Ends (match users target with | none => (throw .notFound : UserM Unit) | some _ => modify _)
    _ _ users
  rw [htargetUser]
  apply ends_call_of_spares hwriteAudit
  exact ends_getUser (fun _ => hwritten) fun _ _ => hwritten

end Operations

/-! ### The law -/

/-- What roles protect: a superadmin stays one, only a superadmin (or `ADMIN_IDS`) makes superadmins
and moderators, and a moderator does not change the role of a moderator or a superadmin. -/
structure PrivilegeLaw (adminIds : List ℤ) (operation : Operation) (users users' : UserTable) :
    Prop where
  superadminStays : ∀ id, roleOf users id = some .superadmin → roleOf users' id = some .superadmin
  promotion : ∀ id role, role = .superadmin ∨ role = .moderator → roleOf users' id = some role →
    roleOf users id ≠ some role → id ∈ adminIds ∨
      ∃ actor, operation.actor = some actor ∧ roleOf users actor = some .superadmin
  moderatorLimit : ∀ actor, operation.actor = some actor → roleOf users actor = some .moderator →
    ∀ id, roleOf users id = some .moderator ∨ roleOf users id = some .superadmin →
      roleOf users' id = roleOf users id

/-- The step is no unblocking of a moderator by a moderator; one that raises before its transaction
ends unblocks nobody. -/
def GuardsModerators (adminIds : List ℤ) (users : UserTable) : Operation × Fault → Prop
  | (.unblockUser actor target, fault) =>
    ¬ (roleOf users actor = some .moderator ∧ roleOf users target = some .moderator ∧
      target ∉ adminIds ∧ Operation.CommitSpared fault)
  | _ => True

/-- The step keeps the law. -/
def IsLawful (adminIds : List ℤ) (users : UserTable) (a : Operation × Fault) : Prop :=
  PrivilegeLaw adminIds a.1 users (a.1.after adminIds a.2 users)

section Law

variable {adminIds : List ℤ} {users : UserTable} {fault : Fault} {operation : Operation} {id : ℤ}
  {written : UserRole}

theorem roleOf_update {id' : ℤ} {role : UserRole} {blockedAt : Option Stamp} :
    roleOf (Function.update users id (some ⟨role, blockedAt⟩)) id' =
      if id' = id then some role else roleOf users id' := by
  unfold roleOf
  by_cases hid : id' = id
  · subst hid
    rw [Function.update_self, if_pos rfl]
    rfl
  · rw [Function.update_of_ne hid, if_neg hid]

theorem superadmin_of_mayWrite (hmay : operation.MayWrite adminIds fault users id written)
    (hid : roleOf users id = some .superadmin) : written = .superadmin := by
  cases operation with
  | setRole actor target role =>
    obtain ⟨rfl, rfl, -, hkeeps⟩ := hmay
    exact hkeeps hid
  | approveAccessRequestUser | blockUser | unblockUser =>
    obtain ⟨rfl, -, hsuper, -⟩ := hmay
    exact absurd hid hsuper
  | ensureUser user =>
    obtain ⟨rfl, ⟨rfl, -⟩ | ⟨-, hnew⟩⟩ := hmay
    · rfl
    · rw [roleOf, hnew] at hid
      cases hid

theorem superadmin_actor_of_mayWrite (hmay : operation.MayWrite adminIds fault users id written)
    (hrole : written = .superadmin ∨ written = .moderator) :
    id ∈ adminIds ∨ ∃ actor, operation.actor = some actor ∧ roleOf users actor = some .superadmin := by
  cases operation with
  | setRole actor target role =>
    obtain ⟨-, -, hactor, -⟩ := hmay
    exact Or.inr ⟨actor, rfl, hactor⟩
  | approveAccessRequestUser | blockUser | unblockUser =>
    obtain ⟨-, rfl, -⟩ := hmay
    rcases hrole with hrole | hrole <;> cases hrole
  | ensureUser user =>
    obtain ⟨rfl, ⟨-, hadmin⟩ | ⟨rfl, -⟩⟩ := hmay
    · exact Or.inl hadmin
    · rcases hrole with hrole | hrole <;> cases hrole

theorem not_mayWrite_of_moderator (hguard : GuardsModerators adminIds users (operation, fault))
    {actor : ℤ} (hactor : operation.actor = some actor) (hmoderator : roleOf users actor = some .moderator)
    (hid : roleOf users id = some .moderator ∨ roleOf users id = some .superadmin) :
    ¬ operation.MayWrite adminIds fault users id written := by
  intro hmay
  cases operation with
  | setRole _ target role =>
    cases hactor
    obtain ⟨-, -, hsuper, -⟩ := hmay
    rw [hmoderator] at hsuper
    cases hsuper
  | approveAccessRequestUser _ target requestedAt =>
    obtain ⟨rfl, -, hsuper, htarget⟩ := hmay
    rcases hid with hid | hid
    · exact htarget hid
    · exact hsuper hid
  | blockUser _ target now =>
    cases hactor
    obtain ⟨rfl, -, hsuper, htarget⟩ := hmay
    rcases hid with hid | hid
    · exact htarget hmoderator hid
    · exact hsuper hid
  | unblockUser _ target =>
    cases hactor
    obtain ⟨rfl, -, hsuper, hadmin, hspared⟩ := hmay
    rcases hid with hid | hid
    · exact hguard ⟨hmoderator, hid, hadmin, hspared⟩
    · exact hsuper hid
  | ensureUser => cases hactor

theorem isLawful_of_guardsModerators (h : GuardsModerators adminIds users (operation, fault)) :
    IsLawful adminIds users (operation, fault) := by
  unfold IsLawful
  have hwrites : Writes _ users (operation.after adminIds fault users) := ends_operation operation
  generalize operation.after adminIds fault users = users' at hwrites
  rcases hwrites with rfl | ⟨target, written, hmay, blockedAt, rfl⟩
  · exact ⟨fun _ hrole => hrole, fun _ _ _ hrole hne => absurd hrole hne, fun _ _ _ _ _ => rfl⟩
  constructor
  · intro id hid
    rw [roleOf_update]
    split_ifs with htarget
    · subst htarget
      rw [superadmin_of_mayWrite hmay hid]
    · exact hid
  · intro id role hrole hafter hbefore
    rw [roleOf_update] at hafter
    split_ifs at hafter with htarget
    · subst htarget
      cases hafter
      exact superadmin_actor_of_mayWrite hmay hrole
    · exact absurd hafter hbefore
  · intro actor hactor hmoderator id hid
    rw [roleOf_update]
    split_ifs with htarget
    · subst htarget
      exact absurd hmay (not_mayWrite_of_moderator h hactor hmoderator hid)
    · rfl

/-- **A step keeps the law exactly when it is no moderator's unblocking of a moderator.** -/
theorem isLawful_step_iff (a : Operation × Fault) :
    IsLawful adminIds users a ↔ GuardsModerators adminIds users a := by
  obtain ⟨operation, fault⟩ := a
  refine ⟨fun hlaw => ?_, isLawful_of_guardsModerators⟩
  unfold GuardsModerators
  split
  · next actor target fault heq =>
    cases heq
    rintro ⟨hactor, htarget, hadmin, hspared⟩
    have hafter := hlaw.moderatorLimit actor rfl hactor target (Or.inl htarget)
    rw [after_unblockUser hactor htarget hadmin hspared, htarget] at hafter
    cases hafter
  · exact trivial

end Law

/-! ### Runs -/

/-- **A run keeps the law exactly when no moderator unblocks a moderator.** -/
theorem isLawful_iff (adminIds : List ℤ) (users : UserTable) (run : List (Operation × Fault)) :
    Allowed (step adminIds) (IsLawful adminIds) users run ↔
      Allowed (step adminIds) (GuardsModerators adminIds) users run :=
  allowed_congr (fun _ _ => isLawful_step_iff _) users run

/-- User 1 makes the users 2 and 3 moderators. -/
def twoModerators : List (Operation × Fault) :=
  [(.ensureUser 1, none), (.ensureUser 2, none), (.ensureUser 3, none),
    (.setRole 1 2 .moderator, none), (.setRole 1 3 .moderator, none)]

/-- A moderator unblocks a moderator, who was not blocked, and takes the role away. -/
theorem moderator_demoted :
    ∃ users users', runFrom (step [1]) (fun _ => none) twoModerators = some users ∧
      step [1] users (.unblockUser 2 3, none) = some users' ∧
      roleOf users 2 = some .moderator ∧ roleOf users 3 = some .moderator ∧
      roleOf users' 3 = some .approvedUser := by
  have hroles : ((runFrom (step [1]) (fun _ => none) twoModerators).bind fun users =>
      (step [1] users (.unblockUser 2 3, none)).map fun users' =>
        (roleOf users 2, roleOf users 3, roleOf users' 3)) =
      some (some .moderator, some .moderator, some .approvedUser) := by decide +kernel
  obtain ⟨users, hrun, hroles⟩ := Option.bind_eq_some_iff.1 hroles
  obtain ⟨users', hstep, hroles⟩ := Option.map_eq_some_iff.1 hroles
  obtain ⟨hactor, hroles⟩ := Prod.mk.inj hroles
  obtain ⟨hbefore, hafter⟩ := Prod.mk.inj hroles
  exact ⟨users, users', hrun, hstep, hactor, hbefore, hafter⟩

end VpnBot.Users
