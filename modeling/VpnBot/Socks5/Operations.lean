import VpnBot.Socks5.Service

/-!
# What an operation does to an access

An operation works on one access: its commands and writes change the status in the row and the Linux user
with its login, and nothing else.  `State.put` is the state with both replaced; every command and write takes
a state of this form to one of this form (`setRow_put`, `setUser_put`), so that a run of an operation is one
of its status and its user.
-/

namespace VpnBot.Socks5

open Py Sys Program

variable {s : State} {access row : ProxyAccess} {status : ProxyAccessStatus} {user : Option LinuxUser}
  {loginPrefix login : Text} {P : Unit → State → Prop} {Q : Error → State → Prop}

/-! ### An access in the state -/

/-- The state with another status in the row of the access and another Linux user. -/
def State.put (s : State) (access : ProxyAccess) (status : ProxyAccessStatus) (user : Option LinuxUser) :
    State :=
  (s.setRow access.id fun _ => status).setUser access.login fun _ => user

@[simp] theorem users_put : (s.put access status user).users access.login = user := by
  simp [State.put, State.setUser]

theorem users_put_of_ne (h : login ≠ access.login) :
    (s.put access status user).users login = s.users login := by
  simp [State.put, State.setUser, State.setRow, h]

theorem mem_put : row ∈ (s.put access status user).accesses.rows ↔
    (row ∈ s.accesses.rows ∧ row.id ≠ access.id) ∨
      ∃ old ∈ s.accesses.rows, old.id = access.id ∧ row = { old with status := status } :=
  Rows.mem_update (t := s.accesses) (f := fun row => { row with status := status }) fun _ => rfl

theorem find?_put (h : access ∈ s.accesses.rows) :
    (s.put access status user).accesses.find? access.id = some { access with status := status } := by
  rw [Rows.find?_eq_some_iff]
  exact ⟨mem_put.2 (.inr ⟨access, h, rfl, rfl⟩), rfl⟩

theorem setUser_put (change : Option LinuxUser → Option LinuxUser) :
    (s.put access status user).setUser access.login change = s.put access status (change user) := by
  simp [State.put, State.setUser]

theorem setRow_put (change : ProxyAccessStatus → ProxyAccessStatus) :
    (s.put access status user).setRow access.id change = s.put access (change status) user := by
  have hrows : ((s.accesses.update access.id (fun row => { row with status := status }) fun _ => rfl).update
      access.id (fun row => { row with status := change row.status }) fun _ => rfl) =
        s.accesses.update access.id (fun row => { row with status := change status }) fun _ => rfl := by
    rw [Rows.mk.injEq]
    refine ⟨?_, rfl⟩
    show (s.accesses.rows.map _).map _ = s.accesses.rows.map _
    rw [List.map_map]
    apply List.map_congr_left
    intro row _
    by_cases hid : row.id = access.id
    · simp [hid]
    · simp [hid]
  exact congrArg (fun accesses => (⟨accesses, _⟩ : State)) hrows

theorem put_self (h : access ∈ s.accesses.rows) :
    s.put access access.status (s.users access.login) = s := by
  have hrows : (s.accesses.update access.id (fun row => { row with status := access.status }) fun _ => rfl) =
      s.accesses := by
    cases haccesses : s.accesses with
    | mk rows next sorted below =>
      rw [Rows.mk.injEq]
      refine ⟨?_, rfl⟩
      refine (List.map_congr_left fun row hrow => ?_).trans (List.map_id _)
      by_cases hid : row.id = access.id
      · have heq : row = access := by
          rw [haccesses] at h
          exact Rows.eq_of_key_eq (t := ⟨rows, next, sorted, below⟩) hrow h hid
        rw [if_pos hid, heq]
        rfl
      · exact if_neg hid
  have husers : Function.update s.users access.login (s.users access.login) = s.users :=
    Function.update_eq_self _ _
  calc s.put access access.status (s.users access.login)
      = ⟨s.accesses.update access.id (fun row => { row with status := access.status }) fun _ => rfl,
          Function.update s.users access.login (s.users access.login)⟩ := rfl
    _ = s := by rw [hrows, husers]

/-! ### The commands -/

theorem ends_write {fails : Bool} {effect : State → State} : Ends (write fails effect) P Q s ↔
    if fails = true then Q .database s else P () (effect s) := by
  unfold write
  split_ifs <;> exact Iff.rfl

theorem ends_userExists {lookupFails : Bool} {P : Bool → State → Prop} {Q : Error → State → Prop}
    (hfound : lookupFails = false → P (s.users login).isSome s) (hfailed : Q .danteUser s) :
    Ends (userExists loginPrefix login lookupFails) P Q s := by
  unfold userExists ensureManagedLogin
  rw [ends_bind]
  split_ifs with hmanaged hlookup hlookup
  · exact hfailed
  · exact hfound (by simpa using hlookup)
  · exact hfailed
  · exact hfailed

/-- `create_user` ends with the user and its password, or with an exception and some user. -/
theorem ends_createUser {password : Text} {faults : CreateFaults} (hlogin : login = access.login)
    (hdone : P () (s.put access status (some ⟨false, some password⟩)))
    (hfailed : ∀ u, Q .danteUser (s.put access status u)) :
    Ends (createUser loginPrefix login password faults) P Q (s.put access status user) := by
  subst hlogin
  have hsafe : ∀ {R : Unit → State → Prop}, R () (s.put access status user) →
      Ends (ensureSafePassword password) R Q (s.put access status user) := by
    intro R hR
    unfold ensureSafePassword
    split_ifs
    · exact hfailed user
    · exact hR
  have hadd : Ends (addUser access.login password faults) P Q (s.put access status user) := by
    unfold addUser
    rw [ends_bind]
    refine ends_call_of (fun _ => ?_) (fun _ => hfailed user) fun _ => ?_
    · rw [setUser_put]
      refine ends_call_of (fun _ => ?_) (fun _ => hfailed _) fun _ => ?_
      · rw [setUser_put]
        exact hdone
      · rw [setUser_put]
        exact hfailed _
    · rw [setUser_put]
      exact hfailed _
  unfold createUser
  rw [ends_bind]
  unfold ensureManagedLogin
  split_ifs
  · rw [ends_pure, ends_bind]
    refine hsafe ?_
    rw [ends_bind]
    refine ends_userExists (fun _ => ?_) (hfailed user)
    cases (s.put access status user).users access.login
    · exact hadd
    · exact hfailed user
  · exact hfailed user

/-- `lock_user` ends with a locked user, finds no user, or fails with the user as it was or locked. -/
theorem ends_lockUser {faults : CommandFaults}
    (hlocked : ∀ u, user = some u → P () (s.put access status (some { u with locked := true })))
    (hgone : user = none → Q .danteUserNotFound (s.put access status user))
    (hfailed : Q .danteUser (s.put access status user))
    (hafter : ∀ u, user = some u → faults.lookupFails = false → faults.command = some .after →
      Q .danteUser (s.put access status (some { u with locked := true }))) :
    Ends (lockUser loginPrefix access.login faults) P Q (s.put access status user) := by
  unfold lockUser
  rw [ends_bind]
  refine ends_userExists (fun hlookup => ?_) hfailed
  rw [users_put]
  cases user with
  | none => exact hgone rfl
  | some u =>
    have hlock : (s.put access status (some u)).setUser access.login
        (fun user => user.map fun u => { u with locked := true }) =
          s.put access status (some { u with locked := true }) := setUser_put _
    show Ends (call _ _ _) P Q _
    rw [ends_call]
    cases hcommand : faults.command with
    | none =>
      show P () _
      rw [hlock]
      exact hlocked u rfl
    | some fault =>
      cases fault with
      | before => exact hfailed
      | after =>
        show Q .danteUser _
        rw [hlock]
        exact hafter u rfl hlookup hcommand

/-- `delete_user` ends without a user, or fails with the user as it was or without one. -/
theorem ends_deleteUser {faults : CommandFaults} (hdeleted : P () (s.put access status none))
    (hfailed : Q .danteUser (s.put access status user)) (hafter : Q .danteUser (s.put access status none)) :
    Ends (deleteUser loginPrefix access.login faults) P Q (s.put access status user) := by
  unfold deleteUser
  rw [ends_bind]
  refine ends_userExists (fun _ => ?_) hfailed
  rw [users_put]
  cases user with
  | none => exact hdeleted
  | some u =>
    refine ends_call_of (fun _ => ?_) (fun _ => hfailed) fun _ => ?_
    · rw [setUser_put]
      exact hdeleted
    · rw [setUser_put]
      exact hafter

/-! ### The writes -/

theorem ends_setStatus {new : ProxyAccessStatus} {fails : Bool}
    (hdone : fails = false → P () (s.put access new user))
    (hfailed : Q .database (s.put access status user)) :
    Ends (setStatus access.id new fails) P Q (s.put access status user) := by
  unfold setStatus
  rw [ends_write, setRow_put]
  split_ifs with hfails
  · exact hfailed
  · exact hdone (by simpa using hfails)

theorem ends_markActive {fails : Bool} (hstatus : status = .pendingApply ∨ status = .applyFailed)
    (hdone : fails = false → P () (s.put access .active user))
    (hfailed : Q .database (s.put access status user)) :
    Ends (markActive access.id fails) P Q (s.put access status user) := by
  unfold markActive
  rw [ends_write, setRow_put, if_pos hstatus]
  split_ifs with hfails
  · exact hfailed
  · exact hdone (by simpa using hfails)

theorem ends_markFinal {final : ProxyAccessStatus} {mayLeave : ProxyAccessStatus → Bool} {fails : Bool}
    (h : access ∈ s.accesses.rows) (hleave : mayLeave status = true)
    (hdone : P () (s.put access final user)) (hfailed : Q .database (s.put access status user)) :
    Ends (markFinal access.id final mayLeave fails) P Q (s.put access status user) := by
  unfold markFinal
  rw [ends_bind, ends_get, find?_put h]
  simp only
  rw [if_pos hleave, ends_write, setRow_put]
  split_ifs
  · exact hfailed
  · exact hdone

/-! ### The operations -/

/-- The operation has ended with some status and some user of the access. -/
def Lands (s : State) (access : ProxyAccess) (R : ProxyAccessStatus → Option LinuxUser → Prop)
    (s' : State) : Prop :=
  ∃ status user, s' = s.put access status user ∧ R status user

theorem Lands.mono {R R' : ProxyAccessStatus → Option LinuxUser → Prop} {s' : State}
    (h : Lands s access R s') (hR : ∀ status user, R status user → R' status user) :
    Lands s access R' s' := by
  obtain ⟨status, user, rfl, h⟩ := h
  exact ⟨status, user, rfl, hR status user h⟩

/-- The statuses in front of an active access. -/
def Unapplied (status : ProxyAccessStatus) : Prop := status = .pendingApply ∨ status = .applyFailed

instance (status : ProxyAccessStatus) : Decidable (Unapplied status) :=
  inferInstanceAs (Decidable (status = .pendingApply ∨ status = .applyFailed))

theorem Unapplied.promised {password : Text} (h : Unapplied status) : Promised status password user := by
  refine ⟨fun hactive => ?_, fun hfinal => ?_⟩
  · rw [hactive] at h
    rcases h with h | h <;> cases h
  · rcases hfinal with hfinal | hfinal <;> rw [hfinal] at h <;> rcases h with h | h <;> cases h

/-- The operation has left the access unapplied. -/
def LandsUnapplied (s : State) (access : ProxyAccess) : State → Prop :=
  Lands s access fun status _ => Unapplied status

theorem ends_recordCompensation {input : IssueInput} {disabled : Bool} (hstatus : Unapplied status) :
    Ends (recordCompensation access input disabled) (fun _ => LandsUnapplied s access)
      (fun _ => LandsUnapplied s access) (s.put access status user) := by
  unfold recordCompensation
  split_ifs
  · rw [ends_bind, ends_attempt]
    exact ends_setStatus (fun _ => ⟨.applyFailed, user, rfl, .inr rfl⟩) ⟨status, user, rfl, hstatus⟩
  · exact ⟨status, user, rfl, hstatus⟩

theorem ends_compensate {input : IssueInput} (hstatus : Unapplied status) :
    Ends (compensateFailedCreateAfterApply loginPrefix access input) (fun _ => LandsUnapplied s access)
      (fun _ => LandsUnapplied s access) (s.put access status user) := by
  have hrecord : ∀ disabled u, Ends (recordCompensation access input disabled)
      (fun _ => LandsUnapplied s access) (fun _ => LandsUnapplied s access) (s.put access status u) :=
    fun _ _ => ends_recordCompensation hstatus
  unfold compensateFailedCreateAfterApply
  rw [ends_bind, ends_attempt, ends_tryCatch]
  refine ends_deleteUser (hrecord true none) ?_ ?_
  · exact ends_lockUser (fun _ _ => hrecord true _) (fun _ => hrecord false _) (hrecord false _)
      fun _ _ _ _ => hrecord false _
  · exact ends_lockUser (fun _ _ => hrecord true _) (fun _ => hrecord false _) (hrecord false _)
      fun _ _ _ _ => hrecord false _

/-- **A new access becomes active with its user, or stays unapplied.** -/
theorem ends_applyNewAccess {input : IssueInput} :
    Ends (applyNewAccess loginPrefix access input) (fun _ => Lands s access (Promised · access.password))
      (fun _ => Lands s access (Promised · access.password)) (s.put access .pendingApply user) := by
  have hunapplied : ∀ {s' : State}, LandsUnapplied s access s' →
      Lands s access (Promised · access.password) s' := fun h =>
    h.mono fun _ _ hstatus => hstatus.promised
  have hfailed : ∀ error u, Ends (do
        setStatus access.id .applyFailed input.applyFailedFails
        throw error : Program State Error Unit)
      (fun _ s' => Ends (tryCatch (markActive access.id input.markActiveFails) fun error => do
          compensateFailedCreateAfterApply loginPrefix access input
          throw error) (fun _ => Lands s access (Promised · access.password))
        (fun _ => Lands s access (Promised · access.password)) s')
      (fun _ => Lands s access (Promised · access.password)) (s.put access .pendingApply u) := by
    intro error u
    rw [ends_bind]
    exact ends_setStatus (fun _ => hunapplied ⟨.applyFailed, u, rfl, .inr rfl⟩)
      (hunapplied ⟨.pendingApply, u, rfl, .inl rfl⟩)
  unfold applyNewAccess
  rw [ends_bind, ends_tryCatch]
  unfold applyAccess
  split_ifs
  · refine ends_createUser rfl ?_ fun u => hfailed _ u
    rw [ends_tryCatch]
    refine ends_markActive (.inl rfl) (fun _ => ?_) ?_
    · exact ⟨.active, _, rfl, fun _ => rfl, fun h => by rcases h with h | h <;> cases h⟩
    · rw [ends_bind]
      exact (ends_compensate (.inl rfl)).mono (fun _ _ h => hunapplied h) fun _ _ h => hunapplied h
  · exact hfailed _ user

/-- The lock of an active access has its effect and reports a failure, and the access gets back its
status. -/
def LosesLock (status : ProxyAccessStatus) (input : EndInput) : Prop :=
  status = .active ∧ input.allowed = true ∧ input.pendingFails = false ∧
    input.command.lookupFails = false ∧ input.command.command = some .after ∧ input.failedFails = false

instance (status : ProxyAccessStatus) (input : EndInput) : Decidable (LosesLock status input) :=
  inferInstanceAs (Decidable (status = .active ∧ input.allowed = true ∧ input.pendingFails = false ∧
    input.command.lookupFails = false ∧ input.command.command = some .after ∧ input.failedFails = false))

/-- **A revoked access has no unlocked user**, and one whose revocation fails keeps its promise unless its
lock is lost. -/
theorem ends_revokeAccess {input : EndInput} (h : access ∈ s.accesses.rows) (hlogin : access.login ≠ [])
    (hallowed : input.allowed = true) (hkept : ¬ LosesLock access.status input)
    (hfinal : access.status ≠ .revoked ∧ access.status ≠ .deleted)
    (hprom : Promised access.status access.password user) :
    Ends (revokeAccess loginPrefix access input) (fun _ => Lands s access (Promised · access.password))
      (fun _ => Lands s access (Promised · access.password)) (s.put access access.status user) := by
  have hpending : ∀ u, Promised .pendingRevoke access.password u := fun u =>
    ⟨nofun, fun h => by rcases h with h | h <;> cases h⟩
  have hmark : ∀ u, (∀ v, u = some v → v.locked = true) →
      Ends (markRevoked access.id input.finalFails) (fun _ => Lands s access (Promised · access.password))
        (fun _ => Lands s access (Promised · access.password)) (s.put access .pendingRevoke u) := by
    intro u hu
    exact ends_markFinal h rfl ⟨.revoked, u, rfl, nofun, fun _ => hu⟩ ⟨.pendingRevoke, u, rfl, hpending u⟩
  have hrestore : ∀ u, (input.failedFails = false → Promised access.status access.password u) →
      Ends (setStatus access.id access.status input.failedFails) (fun _ => Lands s access (Promised · access.password))
        (fun _ => Lands s access (Promised · access.password)) (s.put access .pendingRevoke u) := by
    intro u hu
    exact ends_setStatus (fun hfails => ⟨access.status, u, rfl, hu hfails⟩)
      ⟨.pendingRevoke, u, rfl, hpending u⟩
  have hempty : access.login.isEmpty = false := by simpa using hlogin
  unfold revokeAccess
  rw [ends_bind]
  refine ends_setStatus (fun hset => ?_) ⟨access.status, user, rfl, hprom⟩
  rw [ends_bind, ends_tryCatch, hempty]
  refine ends_lockUser (fun u _ => ?_) (fun hgone => ?_) ?_ fun u huser hlookup hcommand => ?_
  · exact hmark _ fun v hv => by rw [← Option.some.inj hv]
  · exact hmark _ fun v hv => by rw [hgone] at hv; cases hv
  · show Ends (do setStatus access.id access.status input.failedFails; throw _) _ _ _
    rw [ends_bind]
    exact hrestore user fun _ => hprom
  · show Ends (do setStatus access.id access.status input.failedFails; throw _) _ _ _
    rw [ends_bind]
    refine hrestore _ fun hfails => ⟨fun hactive => ?_, fun hrevoked => ?_⟩
    · exact absurd ⟨hactive, hallowed, hset, hlookup, hcommand, hfails⟩ hkept
    · exact absurd hrevoked (not_or.2 hfinal)

/-- **A deleted access has no user.** -/
theorem ends_deleteAccess {input : EndInput} (h : access ∈ s.accesses.rows) (hlogin : access.login ≠ [])
    (hprom : Promised access.status access.password user) :
    Ends (deleteAccess loginPrefix access input) (fun _ => Lands s access (Promised · access.password))
      (fun _ => Lands s access (Promised · access.password)) (s.put access access.status user) := by
  have hpending : ∀ u, Promised .pendingDelete access.password u := fun u =>
    ⟨nofun, fun h => by rcases h with h | h <;> cases h⟩
  have hmark : Ends (markDeleted access.id input.finalFails)
      (fun _ => Lands s access (Promised · access.password))
      (fun _ => Lands s access (Promised · access.password)) (s.put access .pendingDelete none) :=
    ends_markFinal h rfl ⟨.deleted, none, rfl, nofun, nofun⟩ ⟨.pendingDelete, none, rfl, hpending none⟩
  have hfailed : ∀ u, Ends (setStatus access.id .deleteFailed input.failedFails)
      (fun _ => Lands s access (Promised · access.password))
      (fun _ => Lands s access (Promised · access.password)) (s.put access .pendingDelete u) := by
    intro u
    exact ends_setStatus
      (fun _ => ⟨.deleteFailed, u, rfl, nofun, fun h => by rcases h with h | h <;> cases h⟩)
      ⟨.pendingDelete, u, rfl, hpending u⟩
  have hempty : access.login.isEmpty = false := by simpa using hlogin
  unfold deleteAccess
  rw [ends_bind]
  refine ends_setStatus (fun _ => ?_) ⟨access.status, user, rfl, hprom⟩
  rw [ends_bind, ends_tryCatch, hempty]
  refine ends_deleteUser hmark ?_ ?_
  · rw [ends_bind]
    exact hfailed user
  · rw [ends_bind]
    exact hfailed none

/-! ### Startup -/

/-- An unapplied access whose user is found does not become active, or its user is the one of an active
access. -/
def FitFor (status : ProxyAccessStatus) (password : Text) (user : Option LinuxUser)
    (faults : ReconcileFaults) : Prop :=
  Unapplied status → user.isSome = true → faults.lookupFails = false → faults.writeFails = false →
    user = some ⟨false, some password⟩

/-- What the startup leaves of an access. -/
def LandsFit (s : State) (access : ProxyAccess) (faults : ReconcileFaults) : State → Prop :=
  Lands s access fun status u => Promised status access.password u ∧
    FitFor status access.password u faults

theorem ends_reconcileUnapplied {faults : ReconcileFaults} (hstatus : Unapplied access.status)
    (hlookup : faults.lookupFails = false) (hprom : Promised access.status access.password user)
    (hfit : FitFor access.status access.password user faults) :
    Ends (if user.isSome then markActive access.id faults.writeFails
        else if access.status = .applyFailed then pure ()
        else setStatus access.id .applyFailed faults.writeFails)
      (fun _ => LandsFit s access faults) (fun _ => LandsFit s access faults)
      (s.put access access.status user) := by
  have hkept : LandsFit s access faults (s.put access access.status user) :=
    ⟨access.status, user, rfl, hprom, hfit⟩
  split_ifs with hfound hfailed
  · refine ends_markActive hstatus (fun hwrite => ?_) hkept
    have huser := hfit hstatus hfound hlookup hwrite
    refine ⟨.active, user, rfl, ⟨fun _ => huser, fun h => ?_⟩, fun h => ?_⟩
    · rcases h with h | h <;> cases h
    · rcases h with h | h <;> cases h
  · exact hkept
  · refine ends_setStatus (fun _ => ?_) hkept
    exact ⟨.applyFailed, user, rfl, Unapplied.promised (.inr rfl), fun _ h => absurd h hfound⟩

theorem ends_unlessGone_lockUser {faults : CommandFaults}
    (hlocked : ∀ u, (∀ v, u = some v → v.locked = true) → P () (s.put access status u))
    (hfailed : ∀ u, Q .danteUser (s.put access status u)) :
    Ends (unlessGone user.isSome (lockUser loginPrefix access.login faults)) P Q
      (s.put access status user) := by
  unfold unlessGone
  cases user with
  | none => exact hlocked none nofun
  | some u =>
    show Ends (tryCatch _ _) _ _ _
    rw [ends_tryCatch]
    refine ends_lockUser (fun u _ => hlocked _ fun v hv => ?_) nofun (hfailed _) fun u _ _ _ => hfailed _
    rw [← Option.some.inj hv]

theorem ends_unlessGone_deleteUser {faults : CommandFaults} (hdeleted : P () (s.put access status none))
    (hfailed : ∀ u, Q .danteUser (s.put access status u)) :
    Ends (unlessGone user.isSome (deleteUser loginPrefix access.login faults)) P Q
      (s.put access status user) := by
  unfold unlessGone
  cases user with
  | none => exact hdeleted
  | some u =>
    show Ends (tryCatch _ _) _ _ _
    rw [ends_tryCatch]
    exact ends_deleteUser hdeleted (hfailed _) (hfailed _)

/-- A revocation that the startup completes. -/
theorem ends_reconcileRevoke {faults : ReconcileFaults} (h : access ∈ s.accesses.rows)
    (hstatus : status = .pendingRevoke) :
    Ends (do
        unlessGone user.isSome (lockUser loginPrefix access.login faults.command)
        markRevoked access.id faults.writeFails)
      (fun _ => LandsFit s access faults) (fun _ => LandsFit s access faults)
      (s.put access status user) := by
  subst hstatus
  have hkept : ∀ u, LandsFit s access faults (s.put access .pendingRevoke u) := fun u =>
    ⟨_, u, rfl, ⟨nofun, fun h => by rcases h with h | h <;> cases h⟩,
      fun h => by rcases h with h | h <;> cases h⟩
  rw [ends_bind]
  refine ends_unlessGone_lockUser (fun u hu => ?_) hkept
  refine ends_markFinal h rfl ?_ (hkept u)
  exact ⟨.revoked, u, rfl, ⟨nofun, fun _ => hu⟩, fun h => by rcases h with h | h <;> cases h⟩

/-- A deletion that the startup completes. -/
theorem ends_reconcileDelete {faults : ReconcileFaults} (h : access ∈ s.accesses.rows)
    (hstatus : status = .pendingDelete ∨ status = .deleteFailed) :
    Ends (do
        unlessGone user.isSome (deleteUser loginPrefix access.login faults.command)
        markDeleted access.id faults.writeFails)
      (fun _ => LandsFit s access faults) (fun _ => LandsFit s access faults)
      (s.put access status user) := by
  have hkept : ∀ u, LandsFit s access faults (s.put access status u) := by
    intro u
    refine ⟨status, u, rfl, ⟨fun h => ?_, fun h => ?_⟩, fun h => ?_⟩
    · rcases hstatus with rfl | rfl <;> cases h
    · rcases hstatus with rfl | rfl <;> rcases h with h | h <;> cases h
    · rcases hstatus with rfl | rfl <;> rcases h with h | h <;> cases h
  have hleave : decide (status ≠ .deleted) = true := by
    rcases hstatus with rfl | rfl <;> rfl
  rw [ends_bind]
  refine ends_unlessGone_deleteUser ?_ hkept
  refine ends_markFinal h hleave ?_ (hkept none)
  exact ⟨.deleted, none, rfl, ⟨nofun, nofun⟩, fun h => by rcases h with h | h <;> cases h⟩

/-- **What the startup makes of an access.** -/
theorem ends_startupReconcileAccess {faults : ReconcileFaults} (h : access ∈ s.accesses.rows)
    (hlogin : access.login ≠ []) (hprom : Promised access.status access.password user)
    (hfit : FitFor access.status access.password user faults) :
    Ends (startupReconcileAccess loginPrefix access faults) (fun _ => LandsFit s access faults)
      (fun _ => LandsFit s access faults) (s.put access access.status user) := by
  have hkept : LandsFit s access faults (s.put access access.status user) :=
    ⟨access.status, user, rfl, hprom, hfit⟩
  have hempty : access.login.isEmpty = false := by simpa using hlogin
  unfold startupReconcileAccess
  rw [hempty]
  show Ends (do
    let found ← userExists loginPrefix access.login faults.lookupFails
    reconcileFound loginPrefix access faults found) _ _ _
  rw [ends_bind]
  refine ends_userExists (fun hlookup => ?_) hkept
  rw [users_put]
  unfold reconcileFound
  split
  · rename_i hstatus
    exact ends_reconcileUnapplied (.inl hstatus) hlookup hprom hfit
  · rename_i hstatus
    exact ends_reconcileUnapplied (.inr hstatus) hlookup hprom hfit
  · exact ends_reconcileRevoke h (by assumption)
  · exact ends_reconcileDelete h (.inl (by assumption))
  · exact ends_reconcileDelete h (.inr (by assumption))
  · exact hkept

end VpnBot.Socks5
