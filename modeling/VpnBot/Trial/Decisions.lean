import VpnBot.Trial.Service

/-!
# What becomes of a trial key

The invariant of all runs of `Trial.Service`: whoever is past the check of a request under the decision
lock finds it pending until it writes, so that a key that is live is the key of its approved request, or
one that an approval has in hands.  An approval whose `UPDATE` fails takes its key back, and the request is
pending again; so a request may get a second key after the first one was revoked
(`twice_provisioned`), and what holds is that a request never has two keys that are not revoked.
-/

namespace VpnBot.Trial

open Sys Users

variable {s s' : State} {task task' : Task} {i : ℕ} {fault : Option CallFault} {key : TrialKey}

/-! ### The invariant -/

/-- The request and the key of an approval that has its key in hands. -/
def Task.carries : Task → Option (ℕ × ℕ)
  | approve request (.linking key) | approve request (.rollingBack key) => some (request, key)
  | _ => none

/-- The request is pending, or the key is the one that it was approved with. -/
def Unlinked (s : State) (request key : ℕ) : Prop :=
  ∃ r, s.requests.find? request = some r ∧
    (r.status = .pending ∨ r.status = .approved ∧ r.keyId = some key)

/-- The key was issued for the request. -/
def IssuedFor (s : State) (request key : ℕ) : Prop :=
  ∃ k, s.keys.find? key = some k ∧ k.request = request

/-- What a call that decides can rely on. -/
def CallOk (s : State) : Task → Prop
  | .approve request (.asking _) | .approve request (.issuing _) | .approve request (.checking _) =>
    s.isPending request = true
  | .approve request (.provisioning owner) =>
    s.isPending request = true ∧ (s.users owner).any isBlockedUser = false
  | .approve request (.linking key) => s.isPending request = true ∧ IssuedFor s request key
  | .approve request (.rollingBack key) => Unlinked s request key ∧ IssuedFor s request key
  | _ => True

/-- The key is linked to its approved request. -/
def Linked (s : State) (key : TrialKey) : Prop :=
  ∃ r, s.requests.find? key.request = some r ∧ r.status = .approved ∧ r.keyId = some key.id

/-- A key was issued to an owner who was not blocked, and while it is live it is linked or carried. -/
def KeyOk (s : State) (key : TrialKey) : Prop :=
  key.ownerBlocked = false ∧
    (key.live = true → Linked s key ∨ ∃ task ∈ s.tasks, task.carries = some (key.request, key.id))

/-- The invariant. -/
structure Decided (s : State) : Prop where
  decision : HeldOnce Task.decides s.tasks
  owners : HeldOnce Task.owns s.tasks
  calls : ∀ task ∈ s.tasks, CallOk s task
  keys : ∀ key ∈ s.keys.rows, KeyOk s key

theorem decides_of_carries {p : ℕ × ℕ} (h : task.carries = some p) : task.decides = some () := by
  cases task with
  | approve request pc => cases pc <;> first | rfl | cases h
  | _ => cases h

theorem CallOk.of_decides (h : task.decides = none) : CallOk s task := by
  cases task with
  | approve request pc => cases pc <;> trivial
  | _ => trivial

variable {request : ℕ}

theorem isPending_iff : s.isPending request = true ↔
    ∃ r, s.requests.find? request = some r ∧ r.status = .pending := by
  unfold State.isPending
  cases s.requests.find? request with
  | none => simp
  | some r => simp

theorem notBlocked_of_ensureCanCreate {owner : Option User}
    (h : Issuing.ensureCanCreate true owner = true) : owner.any isBlockedUser = false := by
  cases owner with
  | none => rfl
  | some user => simpa [Issuing.ensureCanCreate] using h

/-! ### What a step of a call does -/

/-- The effects of a call that goes on. -/
inductive Does (s : State) (fault : Option CallFault) : Task → State → Task → Prop
  | nothing {task task' : Task} (hok : CallOk s task → CallOk s task')
      (hcarries : task'.carries = task.carries) : Does s fault task s task'
  | create (user : ℤ) (keyType : VpnKeyType) (hfault : fault = none)
      (hquota : s.canRequestTrial user = true) (hpending : s.hasPending user = false) :
      Does s fault (.create user keyType .checked) (s.create user keyType) (.create user keyType .ended)
  | reset {task task' : Task} (user now : ℤ) (h : task.decides = none) (h' : task'.decides = none) :
      Does s fault task (s.resetTrialQuota user now) task'
  | block {task task' : Task} (user : ℤ) (row : User) (howns : task.owns = some user)
      (h : task.decides = none) (h' : task'.decides = none) : Does s fault task (s.setRole user row) task'
  | provision (request : ℕ) (owner : ℤ) : Does s fault (.approve request (.provisioning owner))
      (s.provision request owner) (.approve request (.linking s.keys.next))
  | approve (request key : ℕ) : Does s fault (.approve request (.linking key)) (s.approve request key)
      (.approve request (if s.isPending request then .ended else .rollingBack key))
  | approveRaised (request key : ℕ) : Does s fault (.approve request (.linking key)) (s.approve request key)
      (.approve request (.rollingBack key))
  | reject (request : ℕ) :
      Does s fault (.reject request .writing) (s.reject request) (.reject request .ended)
  | revoke (request key : ℕ) : Does s fault (.approve request (.rollingBack key)) (s.revoke key)
      (.approve request .ended)

theorem does_of_create {user : ℤ} {keyType : VpnKeyType} {pc pc' : CreatePc}
    (h : advanceCreate s (fault = none) user keyType pc = some (s', pc')) :
    Does s fault (.create user keyType pc) s' (.create user keyType pc') := by
  cases pc with
  | start =>
    simp only [advanceCreate] at h
    split at h <;> cases h <;> exact .nothing (fun _ => trivial) rfl
  | checked =>
    simp only [advanceCreate] at h
    split at h <;> cases h
    · rename_i hinsert
      simp only [Bool.and_eq_true, Bool.not_eq_true', decide_eq_true_eq] at hinsert
      exact .create user keyType hinsert.2 hinsert.1.1 hinsert.1.2
    · exact .nothing (fun _ => trivial) rfl
  | ended => cases h

theorem does_of_reset {user : ℤ} {pc pc' : ResetPc} (h : advanceReset s fault user pc = some (s', pc')) :
    Does s fault (.reset user pc) s' (.reset user pc') := by
  cases pc with
  | start =>
    cases h
    exact .nothing (fun _ => trivial) rfl
  | writing now =>
    cases h
    split
    · exact .nothing (fun _ => trivial) rfl
    · exact .reset user now rfl rfl
  | ended => cases h

theorem does_of_block {user : ℤ} {now : Stamp} {pc pc' : BlockPc}
    (h : advanceBlock s fault user now pc = some (s', pc')) :
    Does s fault (.block user now pc) s' (.block user now pc') := by
  cases pc with
  | start =>
    simp only [advanceBlock] at h
    split at h <;> cases h
    exact .nothing (fun _ => trivial) rfl
  | owned =>
    simp only [advanceBlock] at h
    split at h
    · cases h
      exact .nothing (fun _ => trivial) rfl
    · split at h <;> cases h
      · exact .nothing (fun _ => trivial) rfl
      · exact .block user _ rfl rfl rfl
  | revoking =>
    cases h
    exact .nothing (fun _ => trivial) rfl
  | ended => cases h

theorem does_of_reject {pc pc' : RejectPc} (h : advanceReject s fault request pc = some (s', pc')) :
    Does s fault (.reject request pc) s' (.reject request pc') := by
  cases pc with
  | start =>
    cases h
    exact .nothing (fun _ => trivial) rfl
  | queued =>
    simp only [advanceReject] at h
    split at h <;> cases h
    exact .nothing (fun _ => trivial) rfl
  | reading =>
    simp only [advanceReject] at h
    split at h <;> cases h <;> exact .nothing (fun _ => trivial) rfl
  | writing =>
    cases h
    split
    · exact .nothing (fun _ => trivial) rfl
    · exact .reject request
  | ended => cases h

theorem does_of_approve {pc pc' : ApprovePc}
    (h : advanceApprove s fault request pc = some (s', pc')) :
    Does s fault (.approve request pc) s' (.approve request pc') := by
  cases pc with
  | start =>
    cases h
    split <;> exact .nothing (fun _ => trivial) rfl
  | queued =>
    simp only [advanceApprove] at h
    split at h <;> cases h
    exact .nothing (fun _ => trivial) rfl
  | reading =>
    simp only [advanceApprove] at h
    split at h
    · cases h
      exact .nothing (fun _ => trivial) rfl
    · rename_i r hr
      cases h
      split
      · rename_i hpending
        exact .nothing (fun _ => isPending_iff.2 ⟨r, hr, hpending.1⟩) rfl
      · exact .nothing (fun _ => trivial) rfl
  | asking user =>
    simp only [advanceApprove] at h
    split at h <;> cases h
    · exact .nothing (fun _ => trivial) rfl
    · split
      · exact .nothing id rfl
      · exact .nothing (fun _ => trivial) rfl
  | issuing owner =>
    simp only [advanceApprove] at h
    split at h
    · cases h
      exact .nothing (fun _ => trivial) rfl
    · split at h <;> cases h
      exact .nothing id rfl
  | checking owner =>
    cases h
    split
    · rename_i hchecked
      exact .nothing (fun hok => ⟨hok, notBlocked_of_ensureCanCreate hchecked.2⟩) rfl
    · exact .nothing (fun _ => trivial) rfl
  | provisioning owner =>
    simp only [advanceApprove] at h
    split at h <;> cases h
    · exact .provision request owner
    · exact .nothing (fun _ => trivial) rfl
  | linking key =>
    simp only [advanceApprove] at h
    split at h <;> cases h
    · exact .approve request key
    · refine .nothing (fun ⟨hpending, hissued⟩ => ?_) rfl
      obtain ⟨r, hr, hstatus⟩ := isPending_iff.1 hpending
      exact ⟨⟨r, hr, Or.inl hstatus⟩, hissued⟩
    · exact .approveRaised request key
  | rollingBack key =>
    cases h
    exact .revoke request key
  | ended => cases h

/-- **What a step of a call does.** -/
theorem does_of_advance (h : task.advance s fault = some (s', task')) : Does s fault task s' task' := by
  unfold Task.advance at h
  cases task with
  | create user keyType pc =>
    obtain ⟨⟨_, _⟩, hadvance, heq⟩ := Option.map_eq_some_iff.1 h
    cases heq
    exact does_of_create hadvance
  | approve request pc =>
    obtain ⟨⟨_, _⟩, hadvance, heq⟩ := Option.map_eq_some_iff.1 h
    cases heq
    exact does_of_approve hadvance
  | reject request pc =>
    obtain ⟨⟨_, _⟩, hadvance, heq⟩ := Option.map_eq_some_iff.1 h
    cases heq
    exact does_of_reject hadvance
  | reset user pc =>
    obtain ⟨⟨_, _⟩, hadvance, heq⟩ := Option.map_eq_some_iff.1 h
    cases heq
    exact does_of_reset hadvance
  | block user now pc =>
    obtain ⟨⟨_, _⟩, hadvance, heq⟩ := Option.map_eq_some_iff.1 h
    cases heq
    exact does_of_block hadvance

/-! ### Locks -/

theorem decides_of_advance (h : task.advance s fault = some (s', task')) (hd : task'.decides = some ()) :
    task.decides = some () ∨ s.decisionFree = true := by
  unfold Task.advance at h
  cases task with
  | approve request pc =>
    obtain ⟨⟨_, pc'⟩, hadvance, heq⟩ := Option.map_eq_some_iff.1 h
    cases heq
    cases pc with
    | start =>
      cases hadvance
      split_ifs at hd <;> cases hd
    | queued =>
      simp only [advanceApprove] at hadvance
      split at hadvance
      · rename_i hfree
        exact Or.inr hfree
      · cases hadvance
    | ended => cases hadvance
    | _ => exact Or.inl rfl
  | reject request pc =>
    obtain ⟨⟨_, pc'⟩, hadvance, heq⟩ := Option.map_eq_some_iff.1 h
    cases heq
    cases pc with
    | start =>
      cases hadvance
      split_ifs at hd <;> cases hd
    | queued =>
      simp only [advanceReject] at hadvance
      split at hadvance
      · rename_i hfree
        exact Or.inr hfree
      · cases hadvance
    | ended => cases hadvance
    | _ => exact Or.inl rfl
  | _ =>
    obtain ⟨⟨_, pc'⟩, -, heq⟩ := Option.map_eq_some_iff.1 h
    cases heq
    cases hd

theorem owns_of_advance {user : ℤ} (h : task.advance s fault = some (s', task'))
    (ho : task'.owns = some user) : task.owns = some user ∨ s.userFree user = true := by
  unfold Task.advance at h
  cases task with
  | approve request pc =>
    obtain ⟨⟨_, pc'⟩, hadvance, heq⟩ := Option.map_eq_some_iff.1 h
    cases heq
    cases pc with
    | issuing owner =>
      simp only [advanceApprove] at hadvance
      split at hadvance
      · cases hadvance
        cases ho
      · split at hadvance
        · rename_i hfree
          cases hadvance
          cases ho
          exact Or.inr hfree
        · cases hadvance
    | checking owner =>
      cases hadvance
      split_ifs at ho <;> cases ho
      exact Or.inl rfl
    | rollingBack key =>
      cases hadvance
      cases ho
    | ended => cases hadvance
    | _ =>
      simp only [advanceApprove] at hadvance
      split at hadvance <;> cases hadvance <;> (try split_ifs at ho) <;> cases ho
  | block target now pc =>
    obtain ⟨⟨_, pc'⟩, hadvance, heq⟩ := Option.map_eq_some_iff.1 h
    cases heq
    cases pc with
    | start =>
      simp only [advanceBlock] at hadvance
      split at hadvance
      · rename_i hfree
        cases hadvance
        cases ho
        exact Or.inr hfree
      · cases hadvance
    | owned =>
      simp only [advanceBlock] at hadvance
      split at hadvance
      · cases hadvance
        cases ho
      · split at hadvance <;> cases hadvance <;> cases ho
        exact Or.inl rfl
    | revoking =>
      cases hadvance
      cases ho
    | ended => cases hadvance
  | _ =>
    obtain ⟨⟨_, pc'⟩, -, heq⟩ := Option.map_eq_some_iff.1 h
    cases heq
    cases ho

theorem decisionFree_iff : s.decisionFree = true ↔ ∀ task ∈ s.tasks, task.decides = none := by
  simp [State.decisionFree]

/-! ### The invariant is kept -/

/-- The rows that are there stay as they are. -/
def Keeps (s s' : State) : Prop :=
  ∀ (request : ℕ) (r : TrialKeyRequest), s.requests.find? request = some r →
    s'.requests.find? request = some r

theorem Keeps.isPending (h : Keeps s s') (hpending : s.isPending request = true) :
    s'.isPending request = true := by
  obtain ⟨r, hr, hstatus⟩ := isPending_iff.1 hpending
  exact isPending_iff.2 ⟨r, h request r hr, hstatus⟩

theorem CallOk.mono (h : CallOk s task) (hrows : Keeps s s')
    (husers : ∀ owner, task.owns = some owner → (s.users owner).any isBlockedUser = false →
      (s'.users owner).any isBlockedUser = false)
    (hkeys : ∀ request key, IssuedFor s request key → IssuedFor s' request key) : CallOk s' task := by
  cases task with
  | approve request pc =>
    cases pc with
    | asking user => exact hrows.isPending h
    | issuing owner => exact hrows.isPending h
    | checking owner => exact hrows.isPending h
    | provisioning owner => exact ⟨hrows.isPending h.1, husers owner rfl h.2⟩
    | linking key => exact ⟨hrows.isPending h.1, hkeys request key h.2⟩
    | rollingBack key =>
      obtain ⟨⟨r, hr, hstatus⟩, hissued⟩ := h
      exact ⟨⟨r, hrows request r hr, hstatus⟩, hkeys request key hissued⟩
    | _ => trivial
  | _ => trivial

theorem Linked.mono (h : Linked s key) (hrows : Keeps s s') : Linked s' key := by
  obtain ⟨r, hr, happroved⟩ := h
  exact ⟨r, hrows key.request r hr, happroved⟩

theorem Linked.ne_of_isPending (h : Linked s key) (hpending : s.isPending request = true) :
    key.request ≠ request := by
  rintro rfl
  obtain ⟨r, hr, happroved, -⟩ := h
  obtain ⟨r', hr', hstatus⟩ := isPending_iff.1 hpending
  obtain rfl := Option.some.inj (hr.symm.trans hr')
  rw [happroved] at hstatus
  cases hstatus

theorem find?_approve {request k : ℕ} (hpending : s.isPending request = true) :
    (∃ r, (s.approve request k).requests.find? request = some r ∧ r.status = .approved ∧
      r.keyId = some k) ∧
    (∀ j, j ≠ request → (s.approve request k).requests.find? j = s.requests.find? j) ∧
    (s.approve request k).keys = s.keys := by
  obtain ⟨r, hr, hstatus⟩ := isPending_iff.1 hpending
  simp only [State.approve, hr, if_pos hstatus]
  refine ⟨⟨{ r with status := .approved, keyId := some k }, ?_, rfl, rfl⟩,
    fun j hj => by rw [Rows.find?_update_of_ne _ hj], trivial⟩
  rw [Rows.find?_update_self, hr]
  rfl

theorem linked_approve (hpending : s.isPending key.request = true) :
    Linked (s.approve key.request key.id) key := (find?_approve hpending).1

theorem Linked.approve {request k : ℕ} (h : Linked s key) (hpending : s.isPending request = true) :
    Linked (s.approve request k) key := by
  have hne := h.ne_of_isPending hpending
  obtain ⟨r, hr, hlinked⟩ := h
  exact ⟨r, ((find?_approve hpending).2.1 key.request hne).trans hr, hlinked⟩

theorem Linked.reject (h : Linked s key) : Linked (s.reject request) key := by
  unfold State.reject
  split
  · rename_i hpending
    have hne := h.ne_of_isPending hpending
    obtain ⟨r, hr, hlinked⟩ := h
    refine ⟨r, ?_, hlinked⟩
    rw [Rows.find?_update_of_ne _ hne]
    exact hr
  · exact h

theorem mem_revoke {k : ℕ} (h : key ∈ (s.revoke k).keys.rows) :
    (key ∈ s.keys.rows ∧ key.id ≠ k) ∨
      ∃ old ∈ s.keys.rows, old.id = k ∧ key = { old with live := false } := by
  unfold State.revoke at h
  rwa [Rows.mem_update] at h

theorem IssuedFor.revoke {request k j : ℕ} (h : IssuedFor s request k) :
    IssuedFor (s.revoke j) request k := by
  obtain ⟨row, hrow, hrequest⟩ := h
  unfold IssuedFor State.revoke
  by_cases hk : k = j
  · subst hk
    refine ⟨{ row with live := false }, ?_, hrequest⟩
    rw [Rows.find?_update_self, hrow]
    rfl
  · refine ⟨row, ?_, hrequest⟩
    rw [Rows.find?_update_of_ne _ hk]
    exact hrow

theorem carries_eq_none (h : task.decides = none) : task.carries = none := by
  cases hcarries : task.carries with
  | none => rfl
  | some p =>
    rw [decides_of_carries hcarries] at h
    cases h

theorem Decided.others (h : Decided s) (htask : s.tasks[i]? = some task)
    (hdecides : task.decides = some ()) {j : ℕ} {other : Task} (hji : j ≠ i)
    (hother : s.tasks[j]? = some other) : other.decides = none := by
  cases hd : other.decides with
  | none => rfl
  | some _ => exact absurd (h.decision j i other task () hother htask hd hdecides) hji

theorem Decided.carries_eq (h : Decided s) (htask : s.tasks[i]? = some task)
    (hdecides : task.decides = some ()) {p : ℕ × ℕ} (hp : ∃ t ∈ s.tasks, t.carries = some p) :
    task.carries = some p := by
  obtain ⟨other, hother, hcarries⟩ := hp
  obtain ⟨j, hj⟩ := List.mem_iff_getElem?.1 hother
  have hji := h.decision j i other task () hj htask (decides_of_carries hcarries) hdecides
  subst hji
  obtain rfl := Option.some.inj (hj.symm.trans htask)
  exact hcarries

theorem KeyOk.set (h : KeyOk s key) (htask : s.tasks[i]? = some task) (hrows : Keeps s s')
    (hcarries : task'.carries = task.carries) :
    KeyOk { s' with tasks := s.tasks.set i task' } key := by
  refine ⟨h.1, fun hlive => ?_⟩
  rcases h.2 hlive with hlinked | ⟨other, hother, hcarried⟩
  · exact Or.inl (hlinked.mono hrows)
  · refine Or.inr ?_
    obtain ⟨j, hj⟩ := List.mem_iff_getElem?.1 hother
    by_cases hji : j = i
    · subst hji
      obtain rfl := Option.some.inj (hj.symm.trans htask)
      exact ⟨task', List.mem_set (List.getElem?_eq_some_iff.1 htask).1 _, hcarries.trans hcarried⟩
    · refine ⟨other, List.mem_iff_getElem?.2 ⟨j, ?_⟩, hcarried⟩
      rw [List.getElem?_set_ne (Ne.symm hji)]
      exact hj

theorem Decided.calls_of_decides (h : Decided s) (htask : s.tasks[i]? = some task)
    (hdecides : task.decides = some ()) (hok : CallOk s' task') :
    ∀ other ∈ s.tasks.set i task', CallOk s' other := by
  intro other hother
  rcases mem_set_cases htask hother with rfl | ⟨j, hji, hj⟩
  · exact hok
  · exact .of_decides (h.others htask hdecides hji hj)

/-- After a step of a call that leaves the rows the others have what they rely on. -/
theorem Decided.calls_of_keeps (h : Decided s) (htask : s.tasks[i]? = some task) (hrows : Keeps s s')
    (husers : ∀ owner, task.owns ≠ some owner → s'.users owner = s.users owner)
    (hkeys : s'.keys = s.keys) (hok : CallOk s' task') :
    ∀ other ∈ s.tasks.set i task', CallOk s' other := by
  intro other hother
  rcases mem_set_cases htask hother with rfl | ⟨j, hji, hj⟩
  · exact hok
  · refine (h.calls other (List.mem_of_getElem? hj)).mono hrows (fun owner howns hfree => ?_)
      fun request key hissued => ?_
    · rw [husers owner fun hown => hji (h.owners j i other task owner hj htask howns hown)]
      exact hfree
    · unfold IssuedFor
      rw [hkeys]
      exact hissued

theorem Decided.locks (h : Decided s) (htask : s.tasks[i]? = some task)
    (hadvance : task.advance s fault = some (s', task')) :
    HeldOnce Task.decides (s.tasks.set i task') ∧ HeldOnce Task.owns (s.tasks.set i task') := by
  constructor
  · refine h.decision.set htask fun _ hdecides => ?_
    refine (decides_of_advance hadvance hdecides).imp_right fun hfree b hb => ?_
    rw [decisionFree_iff.1 hfree b hb]
    nofun
  · refine h.owners.set htask fun user howns => ?_
    exact (owns_of_advance hadvance howns).imp_right isFree_iff.1

theorem Decided.provision {owner : ℤ} (h : Decided s)
    (htask : s.tasks[i]? = some (.approve request (.provisioning owner))) :
    (∀ other ∈ s.tasks.set i (.approve request (.linking s.keys.next)),
      CallOk (s.provision request owner) other) ∧
    ∀ key ∈ (s.provision request owner).keys.rows,
      KeyOk { s.provision request owner with
        tasks := s.tasks.set i (.approve request (.linking s.keys.next)) } key := by
  obtain ⟨hpending, hfree⟩ := h.calls _ (List.mem_of_getElem? htask)
  refine ⟨h.calls_of_decides htask rfl ⟨hpending, _, Rows.find?_insert_self rfl, rfl⟩, fun key hkey => ?_⟩
  rcases (Rows.mem_insert rfl).1 hkey with hold | rfl
  · obtain ⟨hblocked, hlive⟩ := h.keys key hold
    refine ⟨hblocked, fun hk => ?_⟩
    rcases hlive hk with hlinked | hcarried
    · exact Or.inl hlinked
    · cases h.carries_eq htask rfl hcarried
  · refine ⟨hfree, fun _ => Or.inr ⟨_, List.mem_set (List.getElem?_eq_some_iff.1 htask).1 _, rfl⟩⟩

theorem Decided.approve {request k : ℕ} (h : Decided s)
    (htask : s.tasks[i]? = some (.approve request (.linking k))) :
    ∀ key ∈ (s.approve request k).keys.rows,
      KeyOk { s.approve request k with tasks := s.tasks.set i task' } key := by
  obtain ⟨hpending, hissued⟩ := h.calls _ (List.mem_of_getElem? htask)
  intro key hkey
  rw [(find?_approve hpending).2.2] at hkey
  obtain ⟨hblocked, hlive⟩ := h.keys key hkey
  refine ⟨hblocked, fun hk => Or.inl ?_⟩
  rcases hlive hk with hlinked | hcarried
  · exact hlinked.approve hpending
  · cases h.carries_eq htask rfl hcarried
    exact linked_approve hpending

theorem Decided.reject (h : Decided s) (htask : s.tasks[i]? = some (.reject request .writing)) :
    ∀ key ∈ s.keys.rows, KeyOk { s.reject request with tasks := s.tasks.set i task' } key := by
  intro key hkey
  obtain ⟨hblocked, hlive⟩ := h.keys key hkey
  refine ⟨hblocked, fun hk => Or.inl ?_⟩
  rcases hlive hk with hlinked | hcarried
  · exact hlinked.reject
  · cases h.carries_eq htask rfl hcarried

theorem Decided.rollBack {request k : ℕ} (h : Decided s)
    (htask : s.tasks[i]? = some (.approve request (.rollingBack k))) :
    ∀ key ∈ (s.revoke k).keys.rows, KeyOk { s.revoke k with tasks := s.tasks.set i task' } key := by
  intro key hkey
  rcases mem_revoke hkey with ⟨hold, hne⟩ | ⟨old, hold, -, rfl⟩
  · obtain ⟨hblocked, hlive⟩ := h.keys key hold
    refine ⟨hblocked, fun hk => Or.inl ?_⟩
    rcases hlive hk with hlinked | hcarried
    · exact hlinked
    · cases h.carries_eq htask rfl hcarried
      exact absurd rfl hne
  · exact ⟨(h.keys old hold).1, nofun⟩

theorem reject_keys : (s.reject request).keys = s.keys := by
  unfold State.reject
  split <;> rfl

/-- **A step of a call keeps the invariant.** -/
theorem Decided.next (h : Decided s) (htask : s.tasks[i]? = some task)
    (hadvance : task.advance s fault = some (s', task')) :
    Decided { s' with tasks := s.tasks.set i task' } := by
  obtain ⟨hdecision, howners⟩ := h.locks htask hadvance
  have hok := h.calls task (List.mem_of_getElem? htask)
  suffices hsuffices : (∀ other ∈ s.tasks.set i task', CallOk s' other) ∧
      ∀ key ∈ s'.keys.rows, KeyOk { s' with tasks := s.tasks.set i task' } key from
    ⟨hdecision, howners, fun other hother => (hsuffices.1 other hother).mono (fun _ _ hr => hr)
      (fun _ _ hfree => hfree) fun _ _ hissued => hissued, hsuffices.2⟩
  cases does_of_advance hadvance with
  | nothing hok' hcarries =>
    exact ⟨h.calls_of_keeps htask (fun _ _ hr => hr) (fun _ _ => rfl) rfl (hok' hok),
      fun key hkey => (h.keys key hkey).set htask (fun _ _ hr => hr) hcarries⟩
  | create user keyType _ _ _ =>
    have hrows : Keeps s (s.create user keyType) := fun _ _ hr => Rows.find?_insert_of_some rfl hr
    exact ⟨h.calls_of_keeps htask hrows (fun _ _ => rfl) rfl trivial,
      fun key hkey => (h.keys key hkey).set htask hrows rfl⟩
  | reset user now hd hd' =>
    exact ⟨h.calls_of_keeps htask (fun _ _ hr => hr) (fun _ _ => rfl) rfl (.of_decides hd'),
      fun key hkey => (h.keys key hkey).set htask (fun _ _ hr => hr)
        ((carries_eq_none hd').trans (carries_eq_none hd).symm)⟩
  | block user row howns hd hd' =>
    refine ⟨h.calls_of_keeps htask (fun _ _ hr => hr) (fun owner hne => ?_) rfl (.of_decides hd'),
      fun key hkey => (h.keys key hkey).set htask (fun _ _ hr => hr)
        ((carries_eq_none hd').trans (carries_eq_none hd).symm)⟩
    refine Function.update_of_ne ?_ _ _
    rintro rfl
    exact hne howns
  | provision request owner => exact h.provision htask
  | approve request k =>
    rw [if_pos hok.1]
    exact ⟨h.calls_of_decides htask rfl trivial, h.approve htask⟩
  | approveRaised request k =>
    obtain ⟨r, hr, hlinked⟩ := (find?_approve (k := k) hok.1).1
    refine ⟨h.calls_of_decides htask rfl ⟨⟨r, hr, Or.inr hlinked⟩, ?_⟩, h.approve htask⟩
    unfold IssuedFor
    rw [(find?_approve hok.1).2.2]
    exact hok.2
  | reject request =>
    refine ⟨h.calls_of_decides htask rfl trivial, ?_⟩
    rw [reject_keys]
    exact h.reject htask
  | revoke request k => exact ⟨h.calls_of_decides htask rfl trivial, h.rollBack htask⟩

theorem decides_of_fresh (h : task.fresh = true) : task.decides = none := by
  cases task with
  | approve request pc =>
    cases pc with
    | start => rfl
    | _ => cases h
  | reject request pc =>
    cases pc with
    | start => rfl
    | _ => cases h
  | _ => rfl

theorem owns_of_fresh (h : task.fresh = true) : task.owns = none := by
  cases task with
  | approve request pc =>
    cases pc with
    | start => rfl
    | _ => cases h
  | block user now pc =>
    cases pc with
    | start => rfl
    | _ => cases h
  | _ => rfl

theorem Decided.mono (h : Decided s) (htasks : s'.tasks = s.tasks) (hrows : s'.requests = s.requests)
    (husers : ∀ owner, (s.users owner).any isBlockedUser = false →
      (s'.users owner).any isBlockedUser = false)
    (hissued : ∀ request key, IssuedFor s request key → IssuedFor s' request key)
    (hkeys : ∀ key ∈ s'.keys.rows, ∃ old ∈ s.keys.rows, old.request = key.request ∧ old.id = key.id ∧
      old.ownerBlocked = key.ownerBlocked ∧ (key.live = true → old.live = true)) : Decided s' where
  decision := by
    rw [htasks]
    exact h.decision
  owners := by
    rw [htasks]
    exact h.owners
  calls task htask := by
    rw [htasks] at htask
    refine (h.calls task htask).mono (fun request r hr => ?_) (fun owner _ => husers owner) hissued
    rw [hrows]
    exact hr
  keys key hkey := by
    obtain ⟨old, hold, hrequest, hid, hblocked, hlive⟩ := hkeys key hkey
    obtain ⟨hnotBlocked, haccounted⟩ := h.keys old hold
    refine ⟨hblocked.symm.trans hnotBlocked, fun hk => ?_⟩
    have := haccounted (hlive hk)
    rw [Linked, hrequest, hid] at this
    rw [Linked, hrows, htasks]
    exact this

/-- **Every step keeps the invariant.** -/
theorem Decided.step {a : Action} (h : Decided s) (hstep : Trial.step s a = some s') : Decided s' := by
  have hsame : ∀ key ∈ s.keys.rows, ∃ old ∈ s.keys.rows, old.request = key.request ∧
      old.id = key.id ∧ old.ownerBlocked = key.ownerBlocked ∧ (key.live = true → old.live = true) :=
    fun key hkey => ⟨key, hkey, rfl, rfl, rfl, id⟩
  cases a with
  | start task =>
    simp only [Trial.step] at hstep
    split at hstep <;> cases hstep
    rename_i hfresh
    have hdecides := decides_of_fresh hfresh
    refine ⟨h.decision.append hdecides, h.owners.append (owns_of_fresh hfresh), fun other hother => ?_,
      fun key hkey => ⟨(h.keys key hkey).1, fun hlive => ?_⟩⟩
    · rcases List.mem_append.1 hother with hold | hnew
      · exact (h.calls other hold).mono (fun _ _ hr => hr) (fun _ _ hfree => hfree) fun _ _ hi => hi
      · rw [List.mem_singleton.1 hnew]
        exact .of_decides hdecides
    · refine ((h.keys key hkey).2 hlive).imp_right fun ⟨other, hother, hcarries⟩ => ?_
      exact ⟨other, List.mem_append_left _ hother, hcarries⟩
  | next i fault =>
    obtain ⟨task, htask, hmap⟩ := Option.bind_eq_some_iff.1 hstep
    obtain ⟨⟨m, task'⟩, hadvance, heq⟩ := Option.map_eq_some_iff.1 hmap
    cases heq
    exact h.next htask hadvance
  | tick now =>
    simp only [Trial.step] at hstep
    split at hstep <;> cases hstep
    exact h.mono rfl rfl (fun _ hfree => hfree) (fun _ _ hi => hi) hsame
  | revoke k =>
    cases hstep
    refine h.mono rfl rfl (fun _ hfree => hfree) (fun _ _ hi => hi.revoke) fun key hkey => ?_
    rcases mem_revoke hkey with ⟨hold, -⟩ | ⟨old, hold, -, rfl⟩
    · exact hsame key hold
    · exact ⟨old, hold, rfl, rfl, rfl, nofun⟩
  | setRole user role =>
    simp only [Trial.step] at hstep
    split at hstep <;> cases hstep
    rename_i hrole
    refine h.mono rfl rfl (fun owner hfree => ?_) (fun _ _ hi => hi) hsame
    show ((Function.update s.users user (some ⟨role, none⟩)) owner).any isBlockedUser = false
    by_cases howner : owner = user
    · rw [howner, Function.update_self]
      simp [isBlockedUser, hrole]
    · rw [Function.update_of_ne howner]
      exact hfree

theorem decided_start (users : UserTable) (clock : ℤ) : Decided (State.start users clock) :=
  ⟨.nil, .nil, by rintro _ ⟨⟩, by rintro _ ⟨⟩⟩

/-! ### Every run -/

theorem decided_of_run {users : UserTable} {clock : ℤ} {as : List Action}
    (hrun : runFrom step (.start users clock) as = some s) : Decided s :=
  have hall : Allowed step (fun _ _ => True) (.start users clock) as :=
    allowed_of_forall (fun _ _ _ => trivial) _
  invariant_of_allowed (fun _ _ _ h _ hstep => h.step hstep) (decided_start users clock) hall hrun

theorem Decided.carried (h : Decided s) (htask : task ∈ s.tasks) {request k : ℕ}
    (hcarries : task.carries = some (request, k)) : Unlinked s request k := by
  have hok := h.calls task htask
  cases task with
  | approve req pc =>
    cases pc with
    | linking key =>
      cases hcarries
      obtain ⟨r, hr, hpending⟩ := isPending_iff.1 hok.1
      exact ⟨r, hr, Or.inl hpending⟩
    | rollingBack key =>
      cases hcarries
      exact hok.1
    | _ => cases hcarries
  | _ => cases hcarries

theorem Decided.id_eq (h : Decided s) {key' : TrialKey} (hlinked : Linked s key)
    (hrequest : key.request = key'.request)
    (hcarried : ∃ task ∈ s.tasks, task.carries = some (key'.request, key'.id)) : key.id = key'.id := by
  obtain ⟨task, htask, hcarries⟩ := hcarried
  obtain ⟨r, hr, happroved, hkey⟩ := hlinked
  obtain ⟨r', hr', hstatus⟩ := h.carried htask hcarries
  rw [hrequest] at hr
  obtain rfl := Option.some.inj (hr.symm.trans hr')
  rcases hstatus with hpending | ⟨-, hkey'⟩
  · rw [happroved] at hpending
    cases hpending
  · exact Option.some.inj (hkey.symm.trans hkey')

theorem Decided.live_unique (h : Decided s) {key' : TrialKey} (hkey : key ∈ s.keys.rows)
    (hkey' : key' ∈ s.keys.rows) (hlive : key.live = true) (hlive' : key'.live = true)
    (hrequest : key.request = key'.request) : key = key' := by
  refine Rows.eq_of_key_eq hkey hkey' ?_
  rcases (h.keys key hkey).2 hlive with hlinked | hcarried
  · rcases (h.keys key' hkey').2 hlive' with hlinked' | hcarried'
    · obtain ⟨r, hr, -, hid⟩ := hlinked
      obtain ⟨r', hr', -, hid'⟩ := hlinked'
      rw [hrequest] at hr
      obtain rfl := Option.some.inj (hr.symm.trans hr')
      exact Option.some.inj (hid.symm.trans hid')
    · exact h.id_eq hlinked hrequest hcarried'
  · rcases (h.keys key' hkey').2 hlive' with hlinked' | hcarried'
    · exact (h.id_eq hlinked' hrequest.symm hcarried).symm
    · obtain ⟨task, htask, hcarries⟩ := hcarried
      obtain ⟨i, hi⟩ := List.mem_iff_getElem?.1 htask
      have heq := (h.carries_eq hi (decides_of_carries hcarries) hcarried').symm.trans hcarries
      exact (congrArg Prod.snd (Option.some.inj heq)).symm

/-- **Trial keys are accounted for.**  In every run no key is issued to a blocked owner; a key that is
not revoked is the key that its request was approved with, or one that an approval has in hands; a request
has one such key at most; and a rejected request has none. -/
theorem trial_keys_accounted {users : UserTable} {clock : ℤ} {as : List Action}
    (hrun : runFrom step (.start users clock) as = some s) :
    (∀ key ∈ s.keys.rows, key.ownerBlocked = false) ∧
    (∀ key ∈ s.keys.rows, key.live = true →
      Linked s key ∨ ∃ task ∈ s.tasks, task.carries = some (key.request, key.id)) ∧
    (∀ key ∈ s.keys.rows, ∀ key' ∈ s.keys.rows, key.live = true → key'.live = true →
      key.request = key'.request → key = key') ∧
    ∀ key ∈ s.keys.rows, key.live = true →
      ∀ r, s.requests.find? key.request = some r → r.status ≠ .rejected := by
  have h := decided_of_run hrun
  refine ⟨fun key hkey => (h.keys key hkey).1, fun key hkey => (h.keys key hkey).2,
    fun key hkey key' hkey' => h.live_unique hkey hkey', fun key hkey hlive r hr hrejected => ?_⟩
  rcases (h.keys key hkey).2 hlive with ⟨r', hr', happroved, -⟩ | ⟨task, htask, hcarries⟩
  · obtain rfl := Option.some.inj (hr.symm.trans hr')
    rw [hrejected] at happroved
    cases happroved
  · obtain ⟨r', hr', hstatus⟩ := h.carried htask hcarries
    obtain rfl := Option.some.inj (hr.symm.trans hr')
    rcases hstatus with hpending | ⟨happroved, -⟩
    · rw [hrejected] at hpending
      cases hpending
    · rw [hrejected] at happroved
      cases happroved

/-- The user 5 alone, at the beginning of 2026. -/
def oneRequester : State :=
  .start (fun user => if user = 5 then some ⟨.approvedUser, none⟩ else none) 1767225600

/-- The user makes a request; its approval has its key in hands. -/
def requestAndProvision : List Action :=
  [.start (.create 5 .xray .start), .next 0 none, .next 0 none, .start (.approve 1 .start)] ++
    List.replicate 7 (.next 1 none)

/-- The `UPDATE` raises and the key is taken back; then the request is approved a second time. -/
def approveAgain : List Action :=
  requestAndProvision ++ [.next 1 (some .before), .next 1 none, .start (.approve 1 .start)] ++
    List.replicate 8 (.next 2 none)

theorem keys_approveAgain : (runFrom step oneRequester approveAgain).map (fun s => s.keys.rows) =
    some [⟨1, 1, 5, false, false⟩, ⟨2, 1, 5, false, true⟩] := by
  decide +kernel

/-- A request leads to two keys when the first approval fails after it has issued its key. -/
theorem twice_provisioned : ¬ ∀ (users : UserTable) (clock : ℤ) (as : List Action) (s : State),
    runFrom step (.start users clock) as = some s →
      ∀ key ∈ s.keys.rows, ∀ key' ∈ s.keys.rows, key.request = key'.request → key = key' := by
  intro hclaim
  obtain ⟨s, hs, hkeys⟩ := Option.map_eq_some_iff.1 keys_approveAgain
  have := hclaim _ _ _ s hs ⟨1, 1, 5, false, false⟩ (by simp [hkeys]) ⟨2, 1, 5, false, true⟩
    (by simp [hkeys]) rfl
  cases this

/-- Of the two keys of `approveAgain` one is live, and the request was approved with it. -/
theorem trial_keys_accounted_approveAgain : ∃ s, runFrom step oneRequester approveAgain = some s ∧
    s.keys.rows.map TrialKey.live = [false, true] ∧
    (∀ key ∈ s.keys.rows, key.live = true →
      Linked s key ∨ ∃ task ∈ s.tasks, task.carries = some (key.request, key.id)) := by
  obtain ⟨s, hs, hkeys⟩ := Option.map_eq_some_iff.1 keys_approveAgain
  exact ⟨s, hs, by rw [hkeys]; rfl, (trial_keys_accounted hs).2.1⟩

end VpnBot.Trial
