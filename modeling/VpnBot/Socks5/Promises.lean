import VpnBot.Socks5.Operations

/-!
# What the accesses promise

In a run in which the startup promotes an unapplied access only when its user is unlocked and has its
password, no revocation of an active access loses a lock, and no login of a deleted access is drawn again,
every active access has its user and no revoked or deleted one has an unlocked user (`promises_kept`).
`active_without_password` is a run in which `chpasswd` fails and the next startup makes the access active.
-/

namespace VpnBot.Socks5

open Py Sys Program

variable {s : State} {access : ProxyAccess} {status : ProxyAccessStatus} {user : Option LinuxUser}
  {loginPrefix : Text} {faults : ℕ → ReconcileFaults}

/-! ### The invariant -/

/-- The promises hold, and every row has a login of its own. -/
structure Inv (s : State) : Prop where
  sound : Sound s
  login_ne : ∀ row ∈ s.accesses.rows, row.login ≠ []
  distinct : ∀ row ∈ s.accesses.rows, ∀ row' ∈ s.accesses.rows, row.login = row'.login → row = row'

theorem inv_start (users : Text → Option LinuxUser) : Inv (start users) := ⟨nofun, nofun, nofun⟩

theorem mem_put_cases {row : ProxyAccess} (h : access ∈ s.accesses.rows)
    (hrow : row ∈ (s.put access status user).accesses.rows) :
    (row ∈ s.accesses.rows ∧ row.id ≠ access.id) ∨ row = { access with status := status } := by
  rcases mem_put.1 hrow with hrow | ⟨old, hold, hid, rfl⟩
  · exact .inl hrow
  · rw [Rows.eq_of_key_eq hold h hid]
    exact .inr rfl

theorem Inv.users_put {row : ProxyAccess} (hinv : Inv s) (h : access ∈ s.accesses.rows)
    (hrow : row ∈ s.accesses.rows) (hid : row.id ≠ access.id) :
    (s.put access status user).users row.login = s.users row.login := by
  apply users_put_of_ne
  intro hlogin
  exact hid (congrArg ProxyAccess.id (hinv.distinct row hrow access h hlogin))

/-- **An operation that keeps the promise of its access keeps the invariant.** -/
theorem Inv.put (hinv : Inv s) (h : access ∈ s.accesses.rows)
    (hprom : Promised status access.password user) : Inv (s.put access status user) where
  sound row hrow := by
    rcases mem_put_cases h hrow with ⟨hrow, hid⟩ | rfl
    · rw [hinv.users_put h hrow hid]
      exact hinv.sound row hrow
    · show Promised status access.password ((s.put access status user).users access.login)
      rw [Socks5.users_put]
      exact hprom
  login_ne row hrow := by
    rcases mem_put_cases h hrow with ⟨hrow, -⟩ | rfl
    · exact hinv.login_ne row hrow
    · exact hinv.login_ne access h
  distinct row hrow row' hrow' hlogin := by
    rcases mem_put_cases h hrow with ⟨hrow, hid⟩ | rfl <;>
      rcases mem_put_cases h hrow' with ⟨hrow', hid'⟩ | rfl
    · exact hinv.distinct row hrow row' hrow' hlogin
    · exact absurd (congrArg ProxyAccess.id (hinv.distinct row hrow access h hlogin)) hid
    · exact absurd (congrArg ProxyAccess.id (hinv.distinct row' hrow' access h hlogin.symm)) hid'
    · rfl

theorem Inv.lands {s' : State} (hinv : Inv s) (h : access ∈ s.accesses.rows)
    (hlands : Lands s access (Promised · access.password) s') : Inv s' := by
  obtain ⟨status, user, rfl, hprom⟩ := hlands
  exact hinv.put h hprom

theorem Inv.ends (hinv : Inv s) (h : access ∈ s.accesses.rows) {p : Program State Error Unit}
    (hp : Ends p (fun _ => Lands s access (Promised · access.password))
      (fun _ => Lands s access (Promised · access.password))
      (s.put access access.status (s.users access.login))) :
    Ends p (fun _ => Inv) (fun _ => Inv) s := by
  rw [put_self h] at hp
  exact hp.mono (fun _ _ => hinv.lands h) fun _ _ => hinv.lands h

/-! ### The condition -/

/-- What a step must not do: draw the login of an access that the lookup of logins leaves out, lose the lock
of an active access, or promote an access whose user is not the one of an active access. -/
def Allowed (loginPrefix : Text) (s : State) : Action → Prop
  | .issue input => ∀ draw ∈ input.draws, ∀ row ∈ s.accesses.rows,
      row.status = .deleted ∨ row.status = .inactive →
        row.login ≠ loginOf loginPrefix input.owner draw.suffix
  | .revoke input => ∀ row ∈ s.accesses.rows, row.id = input.accessId → ¬ LosesLock row.status input
  | .delete _ => True
  | .reconcile faults => ∀ row ∈ s.accesses.rows,
      FitFor row.status row.password (s.users row.login) (faults row.id)

instance (status : ProxyAccessStatus) (password : Text) (user : Option LinuxUser)
    (faults : ReconcileFaults) : Decidable (FitFor status password user faults) :=
  inferInstanceAs (Decidable (Unapplied status → user.isSome = true → faults.lookupFails = false →
    faults.writeFails = false → user = some ⟨false, some password⟩))

instance (loginPrefix : Text) (s : State) : ∀ action, Decidable (Allowed loginPrefix s action)
  | .issue input => inferInstanceAs (Decidable (∀ draw ∈ input.draws, ∀ row ∈ s.accesses.rows,
      row.status = .deleted ∨ row.status = .inactive →
        row.login ≠ loginOf loginPrefix input.owner draw.suffix))
  | .revoke input => inferInstanceAs (Decidable (∀ row ∈ s.accesses.rows,
      row.id = input.accessId → ¬ LosesLock row.status input))
  | .delete _ => .isTrue trivial
  | .reconcile faults => inferInstanceAs (Decidable (∀ row ∈ s.accesses.rows,
      FitFor row.status row.password (s.users row.login) (faults row.id)))

/-! ### Issuing -/

theorem ends_drawLogin {owner : ℕ} {draws : List Draw} :
    Ends (drawLogin loginPrefix owner draws)
      (fun login s' => s' = s ∧ loginTaken s login = false ∧
        ∃ draw ∈ draws, login = loginOf loginPrefix owner draw.suffix)
      (fun _ s' => s' = s) s := by
  induction draws with
  | nil => exact rfl
  | cons draw draws ih =>
    have hrest : Ends (drawLogin loginPrefix owner draws)
        (fun login s' => s' = s ∧ loginTaken s login = false ∧
          ∃ d ∈ draw :: draws, login = loginOf loginPrefix owner d.suffix) (fun _ s' => s' = s) s := by
      refine ih.mono ?_ fun _ _ h => h
      rintro login s' ⟨hs, htaken, d, hd, hlogin⟩
      exact ⟨hs, htaken, d, List.mem_cons_of_mem _ hd, hlogin⟩
    unfold drawLogin
    rw [ends_bind, ends_get]
    split_ifs with htaken
    · exact hrest
    · rw [ends_bind]
      refine ends_userExists (fun _ => ?_) rfl
      split_ifs
      · exact hrest
      · exact ⟨rfl, by simpa using htaken, draw, List.mem_cons_self, rfl⟩

/-- The state with the new row. -/
def State.insert (s : State) (access : ProxyAccess) (hid : access.id = s.accesses.next) : State :=
  { s with accesses := s.accesses.insert access hid }

theorem Inv.insert (hinv : Inv s) (hid : access.id = s.accesses.next)
    (hstatus : access.status = .pendingApply) (hlogin : access.login ≠ [])
    (hfresh : ∀ row ∈ s.accesses.rows, row.login ≠ access.login) : Inv (s.insert access hid) where
  sound row hrow := by
    rcases (Rows.mem_insert hid).1 hrow with hrow | rfl
    · exact hinv.sound row hrow
    · exact Unapplied.promised (.inl hstatus)
  login_ne row hrow := by
    rcases (Rows.mem_insert hid).1 hrow with hrow | rfl
    · exact hinv.login_ne row hrow
    · exact hlogin
  distinct row hrow row' hrow' heq := by
    rcases (Rows.mem_insert hid).1 hrow with hold | hnew <;>
      rcases (Rows.mem_insert hid).1 hrow' with hold' | hnew'
    · exact hinv.distinct row hold row' hold' heq
    · exact absurd (hnew' ▸ heq) (hfresh row hold)
    · exact absurd (hnew ▸ heq.symm) (hfresh row' hold')
    · rw [hnew, hnew']

theorem ends_issueDrawn {input : IssueInput} {login : Text} (hinv : Inv s) (hlogin : login ≠ [])
    (hfresh : ∀ row ∈ s.accesses.rows, row.login ≠ login) :
    Ends (do
        let access ← createAccess input.owner login input.password input.createFails
        applyNewAccess loginPrefix access input)
      (fun _ => Inv) (fun _ => Inv) s := by
  have hinsert : Inv (s.insert (newAccess s input.owner login input.password) rfl) :=
    hinv.insert rfl rfl hlogin hfresh
  have hmem : newAccess s input.owner login input.password ∈
      (s.insert (newAccess s input.owner login input.password) rfl).accesses.rows :=
    (Rows.mem_insert rfl).2 (.inr rfl)
  rw [ends_bind]
  unfold createAccess
  rw [ends_bind, ends_get, ends_bind, ends_write]
  split_ifs
  · exact hinv
  · exact hinsert.ends hmem ends_applyNewAccess

theorem ends_issue {input : IssueInput} (hinv : Inv s) (hallowed : Allowed loginPrefix s (.issue input)) :
    Ends (issue loginPrefix input) (fun _ => Inv) (fun _ => Inv) s := by
  unfold issue
  rw [ends_bind, ends_get]
  split_ifs
  · exact hinv
  · exact hinv
  · unfold issueNew uniqueLogin
    rw [ends_bind]
    split_ifs
    · exact hinv
    · refine ends_drawLogin.mono ?_ fun _ _ h => h ▸ hinv
      rintro login s' ⟨rfl, htaken, draw, hdraw, rfl⟩
      refine ends_issueDrawn hinv (by simp [loginOf]) fun row hrow hlogin => ?_
      have hout : row.status = .deleted ∨ row.status = .inactive := by
        by_contra hlive
        rw [not_or] at hlive
        have htrue := List.any_eq_false.1 htaken row hrow
        simp [hlogin, hlive.1, hlive.2] at htrue
      exact hallowed draw (List.mem_of_mem_take hdraw) row hrow hout hlogin

/-! ### Revoking and deleting -/

theorem ends_revoke {input : EndInput} (hinv : Inv s) (hallowed : Allowed loginPrefix s (.revoke input)) :
    Ends (revoke loginPrefix input) (fun _ => Inv) (fun _ => Inv) s := by
  unfold revoke
  rw [ends_bind, ends_get]
  cases hfind : s.accesses.find? input.accessId with
  | none => exact hinv
  | some access =>
    obtain ⟨h, hid⟩ := Rows.find?_eq_some_iff.1 hfind
    simp only
    split_ifs with hfinal hdenied
    · exact hinv
    · exact hinv
    · refine hinv.ends h (ends_revokeAccess h (hinv.login_ne access h) (by simpa using hdenied)
        (hallowed access h hid) ⟨?_, ?_⟩ (hinv.sound access h))
      · exact fun hrevoked => hfinal (.inl hrevoked)
      · exact fun hdeleted => hfinal (.inr (.inr hdeleted))

theorem ends_delete {input : EndInput} (hinv : Inv s) :
    Ends (delete loginPrefix input) (fun _ => Inv) (fun _ => Inv) s := by
  unfold delete
  rw [ends_bind, ends_get]
  cases hfind : s.accesses.find? input.accessId with
  | none => exact hinv
  | some access =>
    obtain ⟨h, -⟩ := Rows.find?_eq_some_iff.1 hfind
    simp only
    split_ifs
    · exact hinv
    · exact hinv
    · exact hinv.ends h (ends_deleteAccess h (hinv.login_ne access h) (hinv.sound access h))

/-! ### Startup -/

/-- The condition of the startup, for all rows. -/
def Fit (faults : ℕ → ReconcileFaults) (s : State) : Prop :=
  ∀ row ∈ s.accesses.rows, FitFor row.status row.password (s.users row.login) (faults row.id)

theorem ends_startupRow (hinv : Inv s) (hfit : Fit faults s) (h : access ∈ s.accesses.rows) :
    Ends (startupReconcileAccess loginPrefix access (faults access.id))
      (fun _ s' => Inv s' ∧ Fit faults s' ∧
        ∀ row ∈ s.accesses.rows, row.id ≠ access.id → row ∈ s'.accesses.rows)
      (fun _ s' => Inv s' ∧ Fit faults s' ∧
        ∀ row ∈ s.accesses.rows, row.id ≠ access.id → row ∈ s'.accesses.rows) s := by
  have hlands : ∀ s', LandsFit s access (faults access.id) s' → Inv s' ∧ Fit faults s' ∧
      ∀ row ∈ s.accesses.rows, row.id ≠ access.id → row ∈ s'.accesses.rows := by
    rintro s' ⟨status, user, rfl, hprom, hfor⟩
    refine ⟨hinv.put h hprom, fun row hrow => ?_, fun row hrow hid => mem_put.2 (.inl ⟨hrow, hid⟩)⟩
    rcases mem_put_cases h hrow with ⟨hrow, hid⟩ | rfl
    · rw [hinv.users_put h hrow hid]
      exact hfit row hrow
    · show FitFor status access.password ((s.put access status user).users access.login) _
      rw [users_put]
      exact hfor
  have hends : Ends (startupReconcileAccess loginPrefix access (faults access.id))
      (fun _ => LandsFit s access (faults access.id)) (fun _ => LandsFit s access (faults access.id))
      (s.put access access.status (s.users access.login)) :=
    ends_startupReconcileAccess h (hinv.login_ne access h) (hinv.sound access h) (hfit access h)
  rw [put_self h] at hends
  exact hends.mono (fun _ => hlands) fun _ => hlands

/-- **A page of the startup.** -/
theorem ends_reconcileAccesses {accesses : List ProxyAccess} (hinv : Inv s) (hfit : Fit faults s)
    (hmem : ∀ access ∈ accesses, access ∈ s.accesses.rows)
    (hnodup : accesses.Pairwise fun a b => a.id < b.id) :
    Ends (reconcileAccesses loginPrefix faults accesses) (fun _ s' => Inv s' ∧ Fit faults s')
      (fun _ s' => Inv s' ∧ Fit faults s') s := by
  induction accesses generalizing s with
  | nil => exact ⟨hinv, hfit⟩
  | cons access accesses ih =>
    obtain ⟨hfirst, hrest⟩ := List.pairwise_cons.1 hnodup
    unfold reconcileAccesses
    rw [ends_bind, ends_attempt]
    have hnext : ∀ s', (Inv s' ∧ Fit faults s' ∧
        ∀ row ∈ s.accesses.rows, row.id ≠ access.id → row ∈ s'.accesses.rows) →
          Ends (reconcileAccesses loginPrefix faults accesses) (fun _ s' => Inv s' ∧ Fit faults s')
            (fun _ s' => Inv s' ∧ Fit faults s') s' := by
      rintro s' ⟨hinv', hfit', hkept⟩
      refine ih hinv' hfit' (fun row hrow => ?_) hrest
      exact hkept row (hmem row (List.mem_cons_of_mem _ hrow)) (Nat.ne_of_gt (hfirst row hrow))
    exact (ends_startupRow hinv hfit (hmem access List.mem_cons_self)).mono (fun _ => hnext)
      fun _ => hnext

theorem ends_reconcileLoop {rounds lastId : ℕ} (hinv : Inv s) (hfit : Fit faults s) :
    Ends (reconcileLoop loginPrefix faults rounds lastId) (fun _ s' => Inv s' ∧ Fit faults s')
      (fun _ s' => Inv s' ∧ Fit faults s') s := by
  induction rounds generalizing s lastId with
  | zero => exact ⟨hinv, hfit⟩
  | succ rounds ih =>
    unfold reconcileLoop
    rw [ends_bind, ends_get]
    cases (reconcilePage s lastId).getLast? with
    | none => exact ⟨hinv, hfit⟩
    | some last =>
      have hmem : ∀ row ∈ reconcilePage s lastId, row ∈ s.accesses.rows := fun row hrow =>
        List.mem_of_mem_filter (List.mem_of_mem_take hrow)
      have hsorted : (reconcilePage s lastId).Pairwise fun a b => a.id < b.id :=
        (s.accesses.sorted.filter _).sublist (List.take_sublist _ _)
      show Ends (do
        reconcileAccesses loginPrefix faults (reconcilePage s lastId)
        reconcileLoop loginPrefix faults rounds last.id) _ _ s
      rw [ends_bind]
      exact (ends_reconcileAccesses hinv hfit hmem hsorted).mono (fun _ _ h => ih h.1 h.2)
        fun _ _ h => h

/-! ### Runs -/

/-- **A step that meets the condition keeps the invariant.** -/
theorem inv_step {s' : State} {action : Action} (hinv : Inv s) (hallowed : Allowed loginPrefix s action)
    (hstep : step loginPrefix s action = some s') : Inv s' := by
  have hends : Ends (operation loginPrefix action) (fun _ => Inv) (fun _ => Inv) s := by
    cases action with
    | issue input => exact ends_issue hinv hallowed
    | revoke input => exact ends_revoke hinv hallowed
    | delete input => exact ends_delete hinv
    | reconcile faults =>
      exact (ends_reconcileLoop hinv hallowed).mono (fun _ _ h => h.1) fun _ _ h => h.1
  cases hstep
  exact Ends.result (R := fun _ => Inv) hends

/-- **The accesses keep their promises.**  In every run whose steps meet the condition, whatever commands
and writes fail, an active access has its Linux user, unlocked and with its password, and a revoked or
deleted access has no unlocked Linux user. -/
theorem promises_kept (loginPrefix : Text) (users : Text → Option LinuxUser) (actions : List Action)
    (s' : State) (hallowed : Sys.Allowed (step loginPrefix) (Allowed loginPrefix) (start users) actions)
    (hrun : runFrom (step loginPrefix) (start users) actions = some s') : Sound s' := by
  have hinv : Inv s' := invariant_of_allowed (fun _ _ _ => inv_step) (inv_start users) hallowed hrun
  exact hinv.sound

/-- Nothing fails. -/
def noFault : CommandFaults := ⟨false, none⟩

/-- A user asks for an access; `markActiveFails` and `chpasswd` say what fails. -/
def sampleIssue (markActiveFails : Bool) (chpasswd : Option CallFault) : IssueInput where
  owner := 7
  allowed := true
  allowedAtApply := true
  draws := [⟨"ab12cd34".toList, false⟩]
  password := "kT3xQ9".toList
  createFails := false
  create := ⟨false, none, chpasswd⟩
  applyFailedFails := false
  markActiveFails := markActiveFails
  compensateDelete := noFault
  compensateLock := noFault
  compensateFails := false

/-- A startup in which nothing fails. -/
def sampleStartup : Action := .reconcile fun _ => ⟨false, noFault, false⟩

def samplePrefix : Text := "vpn_socks_".toList

/-- The write behind the commands fails, and the user is deleted again; the startup leaves the access as it
is.  A second access is revoked. -/
theorem promises_kept_revoked : ∃ s, runFrom (step samplePrefix) (start fun _ => none)
      [.issue (sampleIssue true none), sampleStartup, .issue { sampleIssue false none with owner := 8 },
        .revoke ⟨2, true, false, noFault, false, false⟩] = some s ∧ Sound s := by
  obtain ⟨s, hs⟩ : ∃ s, runFrom (step samplePrefix) (start fun _ => none)
      [.issue (sampleIssue true none), sampleStartup, .issue { sampleIssue false none with owner := 8 },
        .revoke ⟨2, true, false, noFault, false, false⟩] = some s := ⟨_, rfl⟩
  have hallowed : Sys.Allowed (step samplePrefix) (Allowed samplePrefix) (start fun _ => none)
      [.issue (sampleIssue true none), sampleStartup, .issue { sampleIssue false none with owner := 8 },
        .revoke ⟨2, true, false, noFault, false, false⟩] := by
    decide +kernel
  exact ⟨s, hs, promises_kept samplePrefix (fun _ => none) _ s hallowed hs⟩

/-- **An active access without its password.**  `useradd` succeeds and `chpasswd` fails, so the access is
marked as failed; the next startup finds the user and makes the access active. -/
theorem active_without_password : ∃ s, runFrom (step samplePrefix) (start fun _ => none)
      [.issue (sampleIssue false (some .before)), sampleStartup] = some s ∧
    ∃ access ∈ s.accesses.rows, access.status = .active ∧ s.users access.login = some ⟨true, none⟩ := by
  have hrun : (runFrom (step samplePrefix) (start fun _ => none)
      [.issue (sampleIssue false (some .before)), sampleStartup]).map (fun s =>
        s.accesses.rows.any fun access =>
          access.status = .active && s.users access.login = some ⟨true, none⟩) = some true := by
    decide +kernel
  obtain ⟨s, hs, hany⟩ := Option.map_eq_some_iff.1 hrun
  obtain ⟨access, haccess, hfacts⟩ := List.any_eq_true.1 hany
  simp only [Bool.and_eq_true, decide_eq_true_eq] at hfacts
  exact ⟨s, hs, access, haccess, hfacts⟩

end VpnBot.Socks5
