import Mathlib.Algebra.Order.Ring.Int
import VpnBot.Trial.Decisions

/-!
# The trial quota

`can_request_trial` counts the requests that are later than the reset of the quota, and the times are in
seconds: a request made in the second of the reset does not count, and the user can make another one
(`three_approved_after_one_reset`).  When every request that is inserted is later than the reset, the
approved requests of a user are at most one more than the resets before the last approval.

The requests that are not rejected are those before the threshold and those that count; a request is
inserted only when none counts, and a reset moves the threshold and is counted itself.
-/

namespace VpnBot.Trial

open Sys Users

variable {s s' : State} {task task' : Task} {i : ℕ} {fault : Option CallFault} {user : ℤ}

/-! ### Counting requests -/

/-- The request is one of the user that is not rejected. -/
def Standing (user : ℤ) (r : TrialKeyRequest) : Bool := r.telegramUserId = user && r.status ≠ .rejected

/-- The requests of a user that are not rejected. -/
def State.standing (s : State) (user : ℤ) : ℕ := s.requests.rows.countP (Standing user)

/-- Those of them that do not count. -/
def State.standingBefore (s : State) (user : ℤ) : ℕ :=
  s.requests.rows.countP fun r => Standing user r && r.requestedAt ≤ s.threshold user

/-- The approved requests of a user. -/
def State.approvedCount (s : State) (user : ℤ) : ℕ :=
  s.requests.rows.countP fun r => r.telegramUserId = user && r.status = .approved

/-- The user for whom a step inserts a request. -/
def State.inserts (s : State) : Action → Option ℤ
  | .next i none =>
    match s.tasks[i]? with
    | some (.create user _ .checked) =>
      if s.canRequestTrial user && !s.hasPending user then some user else none
    | _ => none
  | _ => none

/-- A request that is inserted is later than the reset of the quota. -/
def LaterThanReset (s : State) (a : Action) : Prop :=
  (s.inserts a).all (fun user => s.threshold user < s.clock) = true

instance : ∀ s a, Decidable (LaterThanReset s a) := fun _ _ => inferInstanceAs (Decidable (_ = true))

theorem standing_eq : s.standing user = s.standingBefore user + s.countUsedSinceReset user := by
  unfold State.standing State.standingBefore State.countUsedSinceReset
  rw [List.countP_eq_countP_filter_add _ (Standing user) fun r => r.requestedAt ≤ s.threshold user]
  rw [List.countP_filter, List.countP_filter]
  congr 1
  refine List.countP_congr fun r _ => ?_
  simp [Standing]
  tauto

theorem approvedCount_le : s.approvedCount user ≤ s.standing user := by
  refine List.countP_mono_left fun r _ h => ?_
  simp only [Bool.and_eq_true, decide_eq_true_eq] at h
  simp [Standing, h]

/-! ### The invariant -/

/-- The requests of each user against the resets. -/
structure Quota (s : State) : Prop where
  total (user : ℤ) : s.standing user ≤ 1 + s.resets user
  old (user : ℤ) : s.standingBefore user ≤ s.resets user
  approved (user : ℤ) : s.approvedCount user ≤ 1 + s.resetsAtApproval user

theorem Quota.create {keyType : VpnKeyType} (h : Quota s) (hquota : s.canRequestTrial user = true)
    (hlater : s.threshold user < s.clock) : Quota (s.create user keyType) := by
  have hused : s.countUsedSinceReset user = 0 := by simpa [State.canRequestTrial] using hquota
  refine ⟨fun other => ?_, fun other => ?_, fun other => ?_⟩
  · show ((s.requests.rows ++ [_]).countP (Standing other)) ≤ 1 + s.resets other
    rw [List.countP_append]
    by_cases hother : other = user
    · subst hother
      have hold := h.old other
      have hsum : s.standing other = s.standingBefore other + s.countUsedSinceReset other := standing_eq
      rw [hused] at hsum
      have hone := List.countP_le_length (p := Standing other)
        (l := [⟨s.requests.next, other, keyType, .pending, none, s.clock⟩])
      have : s.requests.rows.countP (Standing other) = s.standing other := rfl
      simp only [List.length_singleton] at hone
      omega
    · have hzero : Standing other ⟨s.requests.next, user, keyType, .pending, none, s.clock⟩ = false := by
        simp [Standing, Ne.symm hother]
      rw [List.countP_singleton, hzero]
      exact h.total other
  · show ((s.requests.rows ++ [_]).countP _) ≤ s.resets other
    rw [List.countP_append, List.countP_singleton, if_neg]
    · exact h.old other
    · simp only [Standing, Bool.and_eq_true, decide_eq_true_eq, not_and]
      rintro ⟨rfl, -⟩
      exact not_le.2 hlater
  · show ((s.requests.rows ++ [_]).countP _) ≤ 1 + s.resetsAtApproval other
    rw [List.countP_append, List.countP_singleton, if_neg (by simp)]
    exact h.approved other

theorem Quota.reset {now : ℤ} (h : Quota s) : Quota (s.resetTrialQuota user now) := by
  have hle : ∀ other, s.resets other ≤ (s.resetTrialQuota user now).resets other := by
    intro other
    show _ ≤ Function.update s.resets user _ other
    by_cases hother : other = user
    · subst hother
      simp
    · rw [Function.update_of_ne hother]
  refine ⟨fun other => (h.total other).trans (Nat.add_le_add_left (hle other) 1), fun other => ?_,
    h.approved⟩
  by_cases hother : other = user
  · subst hother
    have hbefore : (s.resetTrialQuota other now).standingBefore other ≤ s.standing other :=
      List.countP_mono_left fun r _ hr => (Bool.and_eq_true_iff.1 hr).1
    have hresets : (s.resetTrialQuota other now).resets other = s.resets other + 1 :=
      Function.update_self ..
    have := h.total other
    omega
  · have hthreshold : (s.resetTrialQuota user now).threshold other = s.threshold other := by
      show (Function.update s.resetAt user (some now) other).getD 0 = (s.resetAt other).getD 0
      rw [Function.update_of_ne hother]
    refine le_trans ?_ (hle other)
    unfold State.standingBefore
    rw [hthreshold]
    exact h.old other

theorem countP_approve {request k : ℕ} {p : TrialKeyRequest → Bool}
    (h : ∀ r, s.requests.find? request = some r → r.status = .pending →
      p { r with status := .approved, keyId := some k } = true → p r = true) :
    (s.approve request k).requests.rows.countP p ≤ s.requests.rows.countP p := by
  unfold State.approve
  split
  · rename_i r hr
    split
    · rename_i hpending
      refine Rows.countP_update_le (fun _ => by rfl) fun row hrow hkey => h row ?_ ?_
      · exact Rows.find?_eq_some_iff.2 ⟨hrow, hkey⟩
      · obtain rfl := Option.some.inj ((Rows.find?_eq_some_iff.2 ⟨hrow, hkey⟩).symm.trans hr)
        exact hpending
    · exact le_rfl
  · exact le_rfl

/-- Nor does a rejection. -/
theorem countP_reject {request : ℕ} {p : TrialKeyRequest → Bool}
    (h : ∀ r, p { r with status := .rejected } = true → p r = true) :
    (s.reject request).requests.rows.countP p ≤ s.requests.rows.countP p := by
  unfold State.reject
  split
  · exact Rows.countP_update_le (fun _ => by rfl) fun row _ _ => h row
  · exact le_rfl

theorem approve_resets {request k : ℕ} : (s.approve request k).resets = s.resets ∧
    (s.approve request k).resetAt = s.resetAt := by
  unfold State.approve
  split
  · split <;> exact ⟨rfl, rfl⟩
  · exact ⟨rfl, rfl⟩

theorem reject_resets {request : ℕ} : (s.reject request).resets = s.resets ∧
    (s.reject request).resetAt = s.resetAt ∧
    (s.reject request).resetsAtApproval = s.resetsAtApproval := by
  unfold State.reject
  split <;> exact ⟨rfl, rfl, rfl⟩

theorem standing_approve_le {request k : ℕ} : (s.approve request k).standing user ≤ s.standing user :=
  countP_approve fun r _ hpending hp => by simpa [Standing, hpending] using hp

theorem Quota.approve_approved {request k : ℕ} (h : Quota s) (user : ℤ) :
    (s.approve request k).approvedCount user ≤ 1 + (s.approve request k).resetsAtApproval user := by
  have hmono : ∀ r, s.requests.find? request = some r → r.telegramUserId ≠ user →
      (s.approve request k).approvedCount user ≤ s.approvedCount user := by
    intro r hr hne
    refine countP_approve fun r' hr' _ hp => ?_
    obtain rfl := Option.some.inj (hr.symm.trans hr')
    simp [hne] at hp
  have hstanding : (s.approve request k).standing user ≤ s.standing user := standing_approve_le
  have htotal := approvedCount_le.trans (hstanding.trans (h.total user))
  unfold State.approve at hmono htotal ⊢
  split
  · rename_i r hr
    split
    · rename_i hpending
      simp only [hr, if_pos hpending] at hmono htotal
      show _ ≤ 1 + Function.update s.resetsAtApproval r.telegramUserId _ user
      by_cases huser : r.telegramUserId = user
      · subst huser
        rw [Function.update_self]
        exact htotal
      · rw [Function.update_of_ne (Ne.symm huser)]
        exact (hmono r rfl huser).trans (h.approved user)
    · exact h.approved user
  · exact h.approved user

theorem Quota.approve {request k : ℕ} (h : Quota s) : Quota (s.approve request k) where
  total user := by
    rw [approve_resets.1]
    exact standing_approve_le.trans (h.total user)
  old user := by
    unfold State.standingBefore State.threshold
    rw [approve_resets.1, approve_resets.2]
    refine (countP_approve fun r _ hpending hp => ?_).trans (h.old user)
    simpa [Standing, hpending] using hp
  approved := h.approve_approved

theorem Quota.reject {request : ℕ} (h : Quota s) : Quota (s.reject request) where
  total user := by
    rw [reject_resets.1]
    refine (countP_reject fun r hp => ?_).trans (h.total user)
    simp [Standing] at hp
  old user := by
    unfold State.standingBefore State.threshold
    rw [reject_resets.1, reject_resets.2.1]
    refine (countP_reject fun r hp => ?_).trans (h.old user)
    simp [Standing] at hp
  approved user := by
    rw [reject_resets.2.2]
    refine (countP_reject fun r hp => ?_).trans (h.approved user)
    simp at hp

theorem Quota.congr (h : Quota s) (hrows : s'.requests = s.requests) (hresetAt : s'.resetAt = s.resetAt)
    (hresets : s'.resets = s.resets) (happroval : s'.resetsAtApproval = s.resetsAtApproval) :
    Quota s' := by
  refine ⟨fun user => ?_, fun user => ?_, fun user => ?_⟩
  · rw [State.standing, hrows, hresets]
    exact h.total user
  · rw [State.standingBefore, State.threshold, hrows, hresetAt, hresets]
    exact h.old user
  · rw [State.approvedCount, hrows, happroval]
    exact h.approved user

/-- **A step keeps the quota when the request that it inserts is later than the reset.** -/
theorem Quota.step {a : Action} (h : Quota s) (hallowed : LaterThanReset s a)
    (hstep : Trial.step s a = some s') : Quota s' := by
  cases a with
  | start task =>
    simp only [Trial.step] at hstep
    split at hstep <;> cases hstep
    exact h.congr rfl rfl rfl rfl
  | next i fault =>
    obtain ⟨task, htask, hmap⟩ := Option.bind_eq_some_iff.1 hstep
    obtain ⟨⟨m, task'⟩, hadvance, heq⟩ := Option.map_eq_some_iff.1 hmap
    cases heq
    suffices hm : Quota m from hm.congr rfl rfl rfl rfl
    cases does_of_advance hadvance with
    | nothing _ _ => exact h
    | create user keyType hfault hquota hpending =>
      subst hfault
      refine h.create hquota ?_
      simpa [LaterThanReset, State.inserts, htask, hquota, hpending] using hallowed
    | reset user now _ _ => exact h.reset
    | block user row _ _ _ => exact h.congr rfl rfl rfl rfl
    | provision request owner => exact h.congr rfl rfl rfl rfl
    | approve request k => exact h.approve
    | approveRaised request k => exact h.approve
    | reject request => exact h.reject
    | revoke request k => exact h.congr rfl rfl rfl rfl
  | tick now =>
    simp only [Trial.step] at hstep
    split at hstep <;> cases hstep
    exact h.congr rfl rfl rfl rfl
  | revoke k =>
    cases hstep
    exact h.congr rfl rfl rfl rfl
  | setRole user role =>
    simp only [Trial.step] at hstep
    split at hstep <;> cases hstep
    exact h.congr rfl rfl rfl rfl

/-! ### Every run -/

/-- **The approved requests of a user are at most one more than the resets before the last approval**, in
every run in which each request that is inserted is later than the reset. -/
theorem approved_le_resets {users : UserTable} {clock : ℤ} {as : List Action}
    (hallowed : Allowed step LaterThanReset (.start users clock) as)
    (hrun : runFrom step (.start users clock) as = some s) (user : ℤ) :
    s.approvedCount user ≤ 1 + s.resetsAtApproval user := by
  have hstart : Quota (.start users clock) :=
    ⟨fun _ => Nat.zero_le _, fun _ => Nat.zero_le _, fun _ => Nat.zero_le _⟩
  exact (invariant_of_allowed (fun _ _ _ h ha hstep => h.step ha hstep) hstart hallowed hrun).approved user

/-- The user makes a request with the call `i`, and the next call approves it. -/
def requestAndApprove (i request : ℕ) : List Action :=
  [.start (.create 5 .xray .start), .next i none, .next i none, .start (.approve request .start)] ++
    List.replicate 8 (.next (i + 1) none)

/-- The first request, and the reset of the quota ten seconds later. -/
def approveAndReset : List Action :=
  requestAndApprove 0 1 ++ [.tick 1767225610, .start (.reset 5 .start), .next 2 none, .next 2 none]

/-- A request in the second of the reset, and another one a second later. -/
def twiceAfterReset : List Action :=
  approveAndReset ++ requestAndApprove 3 2 ++ [.tick 1767225611] ++ requestAndApprove 5 3

/-- The request in the second of the reset does not count against the quota. -/
theorem three_approved_after_one_reset : ¬ ∀ (users : UserTable) (clock : ℤ) (as : List Action) (s : State)
    (user : ℤ), runFrom step (.start users clock) as = some s →
      s.approvedCount user ≤ 1 + s.resetsAtApproval user := by
  intro hclaim
  have hrun : (runFrom step oneRequester twiceAfterReset).map
      (fun s => (s.approvedCount 5, s.resetsAtApproval 5)) = some (3, 1) := by decide +kernel
  obtain ⟨s, hs, hcounts⟩ := Option.map_eq_some_iff.1 hrun
  obtain ⟨hthree, hone⟩ := Prod.mk.inj hcounts
  have hle := hclaim _ _ _ s 5 hs
  omega

/-- The request a second after the reset is the only one. -/
theorem approved_le_resets_later : ∃ s,
    runFrom step oneRequester (approveAndReset ++ [.tick 1767225611] ++ requestAndApprove 3 2) = some s ∧
    s.approvedCount 5 = 2 ∧ s.approvedCount 5 ≤ 1 + s.resetsAtApproval 5 := by
  have hrun : (runFrom step oneRequester (approveAndReset ++ [.tick 1767225611] ++
      requestAndApprove 3 2)).map (fun s => s.approvedCount 5) = some 2 := by decide +kernel
  obtain ⟨s, hs, hcount⟩ := Option.map_eq_some_iff.1 hrun
  exact ⟨s, hs, hcount, approved_le_resets (by decide +kernel) hs 5⟩

end VpnBot.Trial
