import Mathlib.Algebra.Order.Group.Nat
import Mathlib.Data.Int.Order.Basic
import VpnBot.AccessRequests.Effects

/-!
# What a decision about an access request may do

`Sound` holds in every run, and `Lawful` is what each step owes: a request is decided once and by a decision
about it, an approval of a pending user gives the status and the role together, and no decision touches a
moderator or superadmin.

Only the order of a request and a block can go wrong.  `block_user` reads the clock before its write waits for
the lock of the database; a request that is committed meanwhile at a later second counts as one made after
the block, and its approval lifts it (`block_lifted`).  In a run in which no block is written over such a
request every step is lawful (`lawful_of_inTime`).
-/

namespace VpnBot.AccessRequests

open Sys Users AccessRequestRepository

variable {adminIds : List ℤ} {faults : Faults} {s s' : State} {task : Task} {a : Action} {user : ℤ}
  {requests : Requests}

/-! ### What is claimed of a step -/

def State.decision (s : State) : Action → Option (Verdict × ℕ)
  | .next i _ => s.tasks[i]?.bind Task.decision
  | _ => none

/-- What a step owes to the requests and the users. -/
structure Lawful (s : State) (a : Action) (s' : State) : Prop where
  /-- A request stays, or a decision about it that was pending goes on. -/
  decided : ∀ r ∈ s.tables.requests.rows, r ∈ s'.tables.requests.rows ∨ r.status = .pending ∧
    ∃ verdict, s.decision a = some (verdict, r.id) ∧
      { r with status := verdict.status } ∈ s'.tables.requests.rows
  /-- An approval of a pending user gives both the status and the role, or neither. -/
  together : ∀ request r, s.decision a = some (.approve, request) →
    s.tables.requests.find? request = some r → roleOf s.tables.users r.telegramUserId = some .pendingUser →
      s'.tables = s.tables ∨
        s'.tables.requests.find? request = some { r with status := .approved } ∧
          roleOf s'.tables.users r.telegramUserId = some .approvedUser
  /-- A decision leaves the moderators and superadmins as they are. -/
  keepsRoles : ∀ decision id row, s.decision a = some decision → s.tables.users id = some row →
    row.role = .moderator ∨ row.role = .superadmin → s'.tables.users id = some row
  /-- A blocked user is approved for a request that was committed after the block. -/
  keepsBlocks : ∀ request id row, s.decision a = some (.approve, request) →
    s.tables.users id = some row → isBlockedUser row = true → s'.tables.users id ≠ some row →
      ∃ r, s.tables.requests.find? request = some r ∧ r.telegramUserId = id ∧ s.blockedBefore id ≤ r.id

/-- The user and the time of the block that a step writes. -/
def State.blocks (s : State) : Action → Option (ℤ × ℤ)
  | .next i faults =>
    match s.tasks[i]? with
    | some (.block _ target (.writing now)) =>
      if faults.users = some (.setRole, false) then none else some (target, now)
    | _ => none
  | _ => none

/-- A user who is being blocked has no pending request from a later second than the one that
`block_user` read. -/
def InTime (s : State) (a : Action) : Prop :=
  ((s.blocks a).all fun (target, now) =>
    (pendingOf s.tables.requests target).all fun r => r.requestedAt ≤ now) = true

instance : ∀ s a, Decidable (InTime s a) := fun _ _ => inferInstanceAs (Decidable (_ = true))

/-! ### Pending requests -/

theorem mem_pendingOf {r : AccessRequest} : r ∈ pendingOf requests user ↔
    r ∈ requests.rows ∧ r.telegramUserId = user ∧ r.status = .pending := by
  unfold pendingOf
  rw [List.mem_filter, Bool.and_eq_true, decide_eq_true_eq, decide_eq_true_eq]

theorem length_pendingOf_insert {now : ℤ} (h : pendingOf requests user = []) (other : ℤ)
    (hother : (pendingOf requests other).length ≤ 1) :
    (pendingOf (requests.insert ⟨requests.next, user, .pending, now⟩ rfl) other).length ≤ 1 := by
  unfold pendingOf Rows.insert at *
  rw [List.filter_append, List.length_append]
  by_cases heq : other = user
  · subst heq
    rw [h]
    simp
  · rw [List.filter_singleton]
    simp [Ne.symm heq, hother]

theorem length_pendingOf_update {status : AccessRequestStatus} {request : ℕ} (hstatus : status ≠ .pending) :
    (pendingOf (requests.update request (fun r => { r with status }) fun _ => rfl) user).length ≤
      (pendingOf requests user).length := by
  unfold pendingOf
  rw [← List.countP_eq_length_filter, ← List.countP_eq_length_filter]
  refine Rows.countP_update_le _ fun r _ _ hp => ?_
  simp [hstatus] at hp

theorem mem_setStatus {status : AccessRequestStatus} {request : ℕ} {r : AccessRequest} :
    r ∈ (requests.update request (fun r => { r with status }) fun _ => rfl).rows ↔
      (r ∈ requests.rows ∧ r.id ≠ request) ∨
        ∃ row ∈ requests.rows, row.id = request ∧ r = { row with status } :=
  Rows.mem_update _

theorem Verdict.status_ne_pending (verdict : Verdict) : verdict.status ≠ .pending := by
  cases verdict <;> exact nofun

/-! ### The invariant of all runs -/

/-- The pending requests and the decisions. -/
structure Sound (adminIds : List ℤ) (s : State) : Prop where
  onePending : ∀ user, (pendingOf s.tables.requests user).length ≤ 1
  notAdmin : ∀ r ∈ s.tables.requests.rows, r.telegramUserId ∉ adminIds
  nodup : s.decisions.Nodup
  closed : ∀ i ∈ s.decisions, ∃ r, s.tables.requests.find? i = some r ∧ r.status ≠ .pending
  before : ∀ user, s.blockedBefore user ≤ s.tables.requests.next

theorem Sound.files {now : ℤ} {t' : Tables} (h : Sound adminIds s)
    (hfiles : Files adminIds s.tables user now t') : Sound adminIds { s with tables := t' } := by
  obtain ⟨users', requests'⟩ := t'
  obtain ⟨-, hsame | ⟨hadmin, hnone, hinsert⟩⟩ := hfiles
  · obtain rfl : requests' = _ := hsame
    exact ⟨h.onePending, h.notAdmin, h.nodup, h.closed, h.before⟩
  · obtain rfl : requests' = _ := hinsert
    refine ⟨fun other => length_pendingOf_insert hnone other (h.onePending other), fun r hr => ?_, h.nodup,
      fun i hi => ?_, fun other => Nat.le_succ_of_le (h.before other)⟩
    · rcases (Rows.mem_insert rfl).1 hr with hold | rfl
      · exact h.notAdmin r hold
      · exact hadmin
    · obtain ⟨r, hr, hstatus⟩ := h.closed i hi
      exact ⟨r, Rows.find?_insert_of_some rfl hr, hstatus⟩

theorem Sound.decides {verdict : Verdict} {request : ℕ} {t' : Tables} (h : Sound adminIds s)
    (hdecided : Decided s.tables verdict.status (verdict.Effect adminIds) request t') :
    Sound adminIds { s with tables := t', decisions := s.decisions ++ [request] } := by
  obtain ⟨users', requests'⟩ := t'
  obtain ⟨row, hrow, hpending, -, hupdate⟩ := hdecided
  obtain rfl : requests' = _ := hupdate
  have hnew : request ∉ s.decisions := fun hmem => by
    obtain ⟨r, hr, hstatus⟩ := h.closed request hmem
    obtain rfl := Option.some.inj (hrow.symm.trans hr)
    exact hstatus hpending
  refine ⟨fun user => ?_, fun r hr => ?_, ?_, fun i hi => ?_, h.before⟩
  · exact (length_pendingOf_update verdict.status_ne_pending).trans (h.onePending user)
  · rcases mem_setStatus.1 hr with ⟨hold, -⟩ | ⟨old, hold, -, rfl⟩
    · exact h.notAdmin r hold
    · exact h.notAdmin old hold
  · exact List.nodup_append.2 ⟨h.nodup, List.nodup_singleton request, fun i hi j hj => by
      rw [List.mem_singleton.1 hj]
      rintro rfl
      exact hnew hi⟩
  · by_cases heq : i = request
    · subst heq
      refine ⟨{ row with status := verdict.status }, ?_, verdict.status_ne_pending⟩
      rw [Rows.find?_update_self, hrow, Option.map_some]
    · have hold : i ∈ s.decisions :=
        (List.mem_append.1 hi).resolve_right fun hmem => heq (List.mem_singleton.1 hmem)
      obtain ⟨r, hr, hstatus⟩ := h.closed i hold
      refine ⟨r, ?_, hstatus⟩
      rw [Rows.find?_update_of_ne _ heq]
      exact hr

/-- A call that goes on keeps the invariant. -/
theorem Sound.of_does (h : Sound adminIds s) (hdoes : Does adminIds faults s task s') :
    Sound adminIds s' := by
  cases hdoes with
  | nothing _ => exact h
  | files user now t' hfiles => exact h.files hfiles
  | decides verdict actor request t' hdecided => exact h.decides hdecided
  | blocks actor target now row hrow hfault =>
    refine ⟨h.onePending, h.notAdmin, h.nodup, h.closed, fun user => ?_⟩
    by_cases heq : user = target
    · subst heq
      exact (Function.update_self ..).le
    · show Function.update s.blockedBefore target s.tables.requests.next user ≤ _
      rw [Function.update_of_ne heq]
      exact h.before user
  | assigns _ users' _ _ => exact ⟨h.onePending, h.notAdmin, h.nodup, h.closed, h.before⟩

/-! ### The order of requests and blocks -/

/-- A request from before a block does not count as one made after it. -/
def Firm (s : State) : Prop :=
  ∀ r ∈ s.tables.requests.rows, r.status = .pending → r.id < s.blockedBefore r.telegramUserId →
    ∀ row, s.tables.users r.telegramUserId = some row →
      UserService.requestIsAfterBlock row.blockedAt (some r.requestedAt) = false

theorem Firm.of_clears (h : Firm s) (hclears : Clears s.tables.users s'.tables.users)
    (hblocked : s'.blockedBefore = s.blockedBefore)
    (hrequests : ∀ r ∈ s'.tables.requests.rows, r.status = .pending →
      r.id < s.blockedBefore r.telegramUserId → r ∈ s.tables.requests.rows) : Firm s' := by
  intro r hr hpending hbefore row hrow
  rw [hblocked] at hbefore
  rcases hclears r.telegramUserId with hsame | ⟨role, hcleared⟩
  · rw [hsame] at hrow
    exact h r (hrequests r hr hpending hbefore) hpending hbefore row hrow
  · rw [hcleared] at hrow
    obtain rfl := Option.some.inj hrow
    rfl

theorem Verdict.Effect.clears {verdict : Verdict} {r : AccessRequest} {users users' : UserTable}
    (h : verdict.Effect adminIds r users users') : Clears users users' := by
  cases verdict with
  | approve =>
    cases h with
    | stays row hrow h => exact Clears.refl
    | approved row hrow hsuperadmin hmoderator hblock => exact clears_update
  | reject =>
    obtain rfl : users' = users := h
    exact Clears.refl

theorem requestIsAfterBlock_of_le {now requestedAt : ℤ} (h : requestedAt ≤ now) :
    UserService.requestIsAfterBlock (some (some now)) (some requestedAt) = false :=
  decide_eq_false (not_lt.2 h)

theorem Firm.of_does (h : Firm s) (hsound : Sound adminIds s) (hdoes : Does adminIds faults s task s')
    (htime : ∀ actor target now, task = .block actor target (.writing now) →
      faults.users ≠ some (.setRole, false) →
        ∀ r ∈ pendingOf s.tables.requests target, r.requestedAt ≤ now) : Firm s' := by
  cases hdoes with
  | nothing _ => exact h
  | files user now t' hfiles =>
    refine h.of_clears hfiles.1 rfl fun r hr _ hbefore => ?_
    obtain ⟨-, hsame | ⟨-, -, hinsert⟩⟩ := hfiles
    · exact hsame ▸ hr
    · rw [hinsert] at hr
      refine ((Rows.mem_insert rfl).1 hr).resolve_right ?_
      rintro rfl
      exact absurd hbefore (not_lt.2 (hsound.before _))
  | decides verdict actor request t' hdecided =>
    obtain ⟨row, -, -, heffect, hupdate⟩ := hdecided
    refine h.of_clears heffect.clears rfl fun r hr hpending _ => ?_
    rw [hupdate] at hr
    rcases mem_setStatus.1 hr with ⟨hold, -⟩ | ⟨old, -, -, rfl⟩
    · exact hold
    · exact absurd hpending verdict.status_ne_pending
  | blocks actor target now row hrow hfault =>
    intro r hr hpending hbefore user huser
    have huser : Function.update s.tables.users target (some ⟨.blockedUser, some (some now)⟩)
        r.telegramUserId = some user := huser
    by_cases heq : r.telegramUserId = target
    · subst heq
      rw [Function.update_self] at huser
      obtain rfl := Option.some.inj huser
      exact requestIsAfterBlock_of_le
        (htime actor _ now rfl hfault r (mem_pendingOf.2 ⟨hr, rfl, hpending⟩))
    · rw [Function.update_of_ne heq] at huser
      replace hbefore := hbefore.trans_eq (Function.update_of_ne heq ..)
      exact h r hr hpending hbefore user huser
  | assigns _ users' _ hclears => exact h.of_clears hclears rfl fun r hr _ _ => hr

/-! ### Steps -/

theorem Lawful.of_tables_eq (h : s'.tables = s.tables) : Lawful s a s' where
  decided _ hr := Or.inl (h ▸ hr)
  together _ _ _ _ _ := Or.inl h
  keepsRoles _ _ _ _ hrow _ := h ▸ hrow
  keepsBlocks _ _ _ _ hrow _ hne := absurd (h ▸ hrow) hne

theorem Lawful.of_not_decision (hdecision : s.decision a = none)
    (hrequests : ∀ r ∈ s.tables.requests.rows, r ∈ s'.tables.requests.rows) : Lawful s a s' where
  decided r hr := Or.inl (hrequests r hr)
  together _ _ h := by cases hdecision.symm.trans h
  keepsRoles _ _ _ h := by cases hdecision.symm.trans h
  keepsBlocks _ _ _ h := by cases hdecision.symm.trans h

theorem Lawful.of_decided {verdict : Verdict} {request : ℕ} (hsound : Sound adminIds s) (hfirm : Firm s)
    (hdecision : s.decision a = some (verdict, request))
    (h : Decided s.tables verdict.status (verdict.Effect adminIds) request s'.tables) : Lawful s a s' := by
  obtain ⟨row, hrow, hpending, heffect, hupdate⟩ := h
  obtain ⟨hmem, rfl⟩ := Rows.find?_eq_some_iff.1 hrow
  refine ⟨fun r hr => ?_, fun request' r hdec hr hrole => ?_, fun decision id user _ huser hkeeps => ?_,
    fun request' id user hdec huser hblocked hne => ?_⟩
  · rw [hupdate]
    by_cases hid : r.id = row.id
    · obtain rfl := Rows.eq_of_key_eq hr hmem hid
      exact Or.inr ⟨hpending, verdict, hdecision, mem_setStatus.2 (Or.inr ⟨r, hr, rfl, rfl⟩)⟩
    · exact Or.inl (mem_setStatus.2 (Or.inl ⟨hr, hid⟩))
  · cases hdecision.symm.trans hdec
    obtain rfl := Option.some.inj (hrow.symm.trans hr)
    generalize s'.tables.users = users' at heffect ⊢
    cases heffect with
    | stays user huser h =>
      -- a pending user is none of those who keep their role
      rw [roleOf, huser] at hrole
      rcases h with hadmin | hrole'
      · exact absurd hadmin (hsound.notAdmin row hmem)
      · exact absurd (Option.some.inj hrole) hrole'
    | approved user huser hsuperadmin hmoderator hblock =>
      refine Or.inr ⟨?_, ?_⟩
      · rw [hupdate, Rows.find?_update_self, hrow]
        rfl
      · rw [roleOf, Function.update_self]
        rfl
  · cases verdict with
    | reject =>
      have heq : s'.tables.users = s.tables.users := heffect
      rw [heq]
      exact huser
    | approve =>
      generalize s'.tables.users = users' at heffect ⊢
      cases heffect with
      | stays _ _ _ => exact huser
      | approved old hold hsuperadmin hmoderator hblock =>
        rw [Function.update_of_ne ?_]
        · exact huser
        · rintro rfl
          obtain rfl := Option.some.inj (huser.symm.trans hold)
          exact hkeeps.elim hmoderator hsuperadmin
  · cases hdecision.symm.trans hdec
    generalize s'.tables.users = users' at heffect hne
    cases heffect with
    | stays _ _ _ => exact absurd huser hne
    | approved old hold hsuperadmin hmoderator hblock =>
      by_cases hid : id = row.telegramUserId
      · subst hid
        obtain rfl := Option.some.inj (huser.symm.trans hold)
        refine ⟨row, hrow, rfl, not_lt.1 fun hbefore => ?_⟩
        rw [hfirm row hmem hpending hbefore user huser] at hblock
        cases hblock hblocked
      · rw [Function.update_of_ne hid] at hne
        exact absurd huser hne

theorem step_cases (h : step adminIds s a = some s') :
    s'.tables = s.tables ∧ s'.decisions = s.decisions ∧ s'.blockedBefore = s.blockedBefore ∨
      ∃ i faults task m, a = .next i faults ∧ s.tasks[i]? = some task ∧ Does adminIds faults s task m ∧
        s'.tables = m.tables ∧ s'.decisions = m.decisions ∧ s'.blockedBefore = m.blockedBefore := by
  cases a with
  | start task =>
    obtain ⟨-, h⟩ := Option.ite_none_right_eq_some.1 h
    cases h
    exact Or.inl ⟨rfl, rfl, rfl⟩
  | next i faults =>
    obtain ⟨task, htask, h⟩ := Option.bind_eq_some_iff.1 h
    obtain ⟨⟨m, task'⟩, hadvance, heq⟩ := Option.map_eq_some_iff.1 h
    cases heq
    exact Or.inr ⟨i, faults, task, m, rfl, htask, does_of_advance hadvance, rfl, rfl, rfl⟩
  | tick now =>
    obtain ⟨-, h⟩ := Option.ite_none_right_eq_some.1 h
    cases h
    exact Or.inl ⟨rfl, rfl, rfl⟩
  | restart =>
    cases h
    exact Or.inl ⟨rfl, rfl, rfl⟩

theorem Sound.congr (h : Sound adminIds s) (htables : s'.tables = s.tables)
    (hdecisions : s'.decisions = s.decisions) (hblocked : s'.blockedBefore = s.blockedBefore) :
    Sound adminIds s' := by
  obtain ⟨tables, clock, tasks, decisions, blockedBefore⟩ := s'
  cases htables
  cases hdecisions
  cases hblocked
  exact ⟨h.onePending, h.notAdmin, h.nodup, h.closed, h.before⟩

theorem Firm.congr (h : Firm s) (htables : s'.tables = s.tables)
    (hblocked : s'.blockedBefore = s.blockedBefore) : Firm s' := by
  unfold Firm at *
  rw [htables, hblocked]
  exact h

theorem Sound.step (h : Sound adminIds s) (hstep : step adminIds s a = some s') : Sound adminIds s' := by
  rcases step_cases hstep with ⟨htables, hdecisions, hblocked⟩ |
    ⟨i, faults, task, m, rfl, -, hdoes, htables, hdecisions, hblocked⟩
  · exact h.congr htables hdecisions hblocked
  · exact (h.of_does hdoes).congr htables hdecisions hblocked

theorem Firm.step (h : Firm s) (hsound : Sound adminIds s) (htime : InTime s a)
    (hstep : step adminIds s a = some s') : Firm s' := by
  rcases step_cases hstep with ⟨htables, -, hblocked⟩ |
    ⟨i, faults, task, m, rfl, htask, hdoes, htables, -, hblocked⟩
  · exact h.congr htables hblocked
  · refine (h.of_does hsound hdoes fun actor target now heq hfault r hr => ?_).congr htables hblocked
    subst heq
    have hblocks : s.blocks (.next i faults) = some (target, now) := by
      simp only [State.blocks, htask]
      exact if_neg hfault
    rw [InTime, hblocks] at htime
    exact of_decide_eq_true (List.all_eq_true.1 htime r hr)

/-- **Every step from a state with both invariants is lawful.** -/
theorem Lawful.of_step (hsound : Sound adminIds s) (hfirm : Firm s)
    (hstep : AccessRequests.step adminIds s a = some s') : Lawful s a s' := by
  rcases step_cases hstep with ⟨htables, -, -⟩ | ⟨i, faults, task, m, rfl, htask, hdoes, htables, -, -⟩
  · exact .of_tables_eq htables
  have hdecision : s.decision (.next i faults) = task.decision := by
    show s.tasks[i]?.bind Task.decision = _
    rw [htask]
    rfl
  cases hdoes with
  | nothing _ => exact .of_tables_eq htables
  | files user now t' hfiles =>
    refine .of_not_decision hdecision fun r hr => ?_
    rw [htables]
    obtain ⟨-, hsame | ⟨-, -, hinsert⟩⟩ := hfiles
    · exact hsame ▸ hr
    · rw [hinsert]
      exact (Rows.mem_insert rfl).2 (Or.inl hr)
  | decides verdict actor request t' hdecided =>
    exact .of_decided hsound hfirm hdecision (htables ▸ hdecided)
  | blocks actor target now row hrow hfault => exact .of_not_decision hdecision fun r hr => htables ▸ hr
  | assigns task users' htask' hclears =>
    exact .of_not_decision (hdecision.trans htask') fun r hr => htables ▸ hr

/-! ### Every run -/

theorem sound_start {users : UserTable} {clock : ℤ} : Sound adminIds (.start users clock) where
  onePending _ := Nat.zero_le _
  notAdmin := nofun
  nodup := .nil
  closed := nofun
  before _ := Nat.zero_le _

/-- **In a run in which every block is in time, each user has at most one pending request, no request is
decided twice, and every step is lawful.** -/
theorem lawful_of_inTime (adminIds : List ℤ) {users : UserTable} {clock : ℤ} {as : List Action}
    (htime : Allowed (step adminIds) InTime (.start users clock) as)
    (hrun : runFrom (step adminIds) (.start users clock) as = some s) :
    (∀ user, (pendingOf s.tables.requests user).length ≤ 1) ∧ s.decisions.Nodup ∧
      ∀ a s', step adminIds s a = some s' → Lawful s a s' := by
  have hstart : Sound adminIds (.start users clock) ∧ Firm (.start users clock) := ⟨sound_start, nofun⟩
  have hkeep : ∀ s a s', Sound adminIds s ∧ Firm s → InTime s a → step adminIds s a = some s' →
      Sound adminIds s' ∧ Firm s' :=
    fun s a s' h htime hstep => ⟨h.1.step hstep, h.2.step h.1 htime hstep⟩
  obtain ⟨hsound, hfirm⟩ := invariant_of_allowed hkeep hstart htime hrun
  exact ⟨hsound.onePending, hsound.nodup, fun a s' hstep => .of_step hsound hfirm hstep⟩

/-- The superadmin 1 and the user 7, who has no access. -/
def oneRequester : State :=
  .start (fun id => if id = 1 then some ⟨.superadmin, none⟩ else if id = 7 then some ⟨.pendingUser, none⟩
    else none) 1767225600

/-- The call `i` goes on `n` times, nothing raises. -/
def goOn (i n : ℕ) : List Action := List.replicate n (.next i .none)

/-- The superadmin blocks the user, up to the reading of the clock. -/
def beginBlock : List Action := .start (.block 1 7 .start) :: goOn 0 4

/-- The user makes a request with the call `i`. -/
def makeRequest (i : ℕ) : List Action := .start (.create 7 .start) :: goOn i 3

/-- The superadmin approves the first request with the call `i`, up to its transaction. -/
def beginApproval (i : ℕ) : List Action := .start (.decide .approve 1 1 .start) :: goOn i 2

/-- A second passes after `block_user` has read the clock, and the request is committed before the role. -/
def requestOvertakesBlock : List Action :=
  beginBlock ++ [.tick 1767225601] ++ makeRequest 1 ++ goOn 0 1 ++ beginApproval 2

/-- The approval of a request that was committed before the block lifts it. -/
theorem block_lifted : ¬ ∀ (adminIds : List ℤ) (users : UserTable) (clock : ℤ) (as : List Action) (s : State),
    runFrom (step adminIds) (.start users clock) as = some s →
      (∀ user, (pendingOf s.tables.requests user).length ≤ 1) ∧ s.decisions.Nodup ∧
        ∀ a s', step adminIds s a = some s' → Lawful s a s' := by
  intro hclaim
  have hrun : (runFrom (step [1]) oneRequester requestOvertakesBlock).bind (fun s =>
      (step [1] s (.next 2 .none)).map fun s' => (s.decision (.next 2 .none), s.tables.users 7,
        s.tables.requests.find? 1, s.blockedBefore 7, s'.tables.users 7)) =
      some (some (.approve, 1), some ⟨.blockedUser, some (some 1767225600)⟩,
        some ⟨1, 7, .pending, 1767225601⟩, 2, some ⟨.approvedUser, none⟩) := by decide +kernel
  obtain ⟨s, hs, hstep⟩ := Option.bind_eq_some_iff.1 hrun
  obtain ⟨s', hs', hvalues⟩ := Option.map_eq_some_iff.1 hstep
  simp only [Prod.mk.injEq] at hvalues
  obtain ⟨hdecision, huser, hrequest, hbefore, huser'⟩ := hvalues
  obtain ⟨r, hr, -, hle⟩ := ((hclaim _ _ _ _ s hs).2.2 _ s' hs').keepsBlocks 1 7 _ hdecision huser rfl
    (by rw [huser']; decide)
  obtain rfl := Option.some.inj (hrequest.symm.trans hr)
  rw [hbefore] at hle
  exact absurd hle (by decide)

/-- The request is made a second after the block was written. -/
def requestAfterBlock : List Action :=
  beginBlock ++ goOn 0 1 ++ [.tick 1767225601] ++ makeRequest 1 ++ beginApproval 2

/-- The approval of the later request is lawful. -/
theorem lawful_requestAfterBlock : ∃ s s', runFrom (step [1]) oneRequester requestAfterBlock = some s ∧
    step [1] s (.next 2 .none) = some s' ∧
    roleOf s'.tables.users 7 = some .approvedUser ∧ Lawful s (.next 2 .none) s' := by
  have hrun : (runFrom (step [1]) oneRequester requestAfterBlock).bind (fun s =>
      (step [1] s (.next 2 .none)).map fun s' => roleOf s'.tables.users 7) =
      some (some .approvedUser) := by decide +kernel
  obtain ⟨s, hs, hstep⟩ := Option.bind_eq_some_iff.1 hrun
  obtain ⟨s', hs', hrole⟩ := Option.map_eq_some_iff.1 hstep
  exact ⟨s, s', hs, hs', hrole, (lawful_of_inTime [1] (by decide +kernel) hs).2.2 _ s' hs'⟩

end VpnBot.AccessRequests
