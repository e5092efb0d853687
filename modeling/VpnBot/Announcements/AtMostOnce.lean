import VpnBot.Announcements.BatchInvariant

/-!
# Nobody gets a copy twice

In every run in which the result of a successful send is recorded, each user gets at most one copy of
a batch (`atMostOneCopy`).  The invariant of a batch (`sentOnce`): the users left on the page of a run
still have an open delivery, and a copy that was sent is on record, or the run is about to record it.
-/

namespace VpnBot.Announcements

open Sys

/-! ### The users of a page -/

namespace SendPc

/-- The users of the page whose delivery is not settled yet. -/
def users : SendPc → List ℤ
  | deliveryCheck _ userId rest | eligibility userId rest | copying userId rest _
  | marking userId rest _ => userId :: rest
  | pausing _ rest => rest
  | _ => []

@[simp] theorem users_nextDelivery (lastSeenId : ℤ) (rest : List ℤ) :
    (nextDelivery lastSeenId rest).users = rest := by
  cases rest <;> rfl

/-- The call is the record of a copy that was sent to the user. -/
def records (userId : ℤ) : SendPc → Prop
  | marking u _ status => u = userId ∧ status = .sent
  | _ => False

end SendPc

/-! ### The state of a delivery -/

namespace BatchState

variable {b : BatchState} {userId : ℤ} {pc : SendPc} {now : ℕ}

/-- The delivery to the user is on record. -/
def IsSent (b : BatchState) (userId : ℤ) : Prop := ⟨userId, .sent⟩ ∈ b.deliveries.rows

/-- The delivery to the user is pending or failed. -/
def IsOpen (b : BatchState) (userId : ℤ) : Prop :=
  ∃ row ∈ b.deliveries.rows, row.userId = userId ∧ row.status.isOpen = true

theorem IsOpen.not_isSent (h : b.IsOpen userId) : ¬ b.IsSent userId := by
  intro hsent
  obtain ⟨row, hrow, hid, hopen⟩ := h
  rw [Deliveries.eq_of_userId_eq hrow hsent hid] at hopen
  cases hopen

/-- What is on record stays. -/
theorem IsSent.effect (h : b.IsSent userId) : (pc.effect now b).IsSent userId := by
  cases pc with
  | marking => exact Deliveries.mem_mark_of_not_open h rfl
  | _ => exact h

theorem IsOpen.effect (h : b.IsOpen userId)
    (hpc : ∀ rest status, pc ≠ .marking userId rest status) : (pc.effect now b).IsOpen userId := by
  cases pc with
  | marking u rest status =>
    obtain ⟨row, hrow, hid, hopen⟩ := h
    refine ⟨row, Deliveries.mem_mark_of_ne hrow ?_, hid, hopen⟩
    rintro rfl
    exact hpc rest status (by rw [hid])
  | _ => exact h

theorem IsOpen.isSent_effect (h : b.IsOpen userId) (hpc : pc.records userId) :
    (pc.effect now b).IsSent userId := by
  cases pc with
  | marking u rest status =>
    obtain ⟨rfl, rfl⟩ := hpc
    obtain ⟨row, hrow, hid, hopen⟩ := h
    exact Deliveries.mem_mark_of_open hrow hid hopen
  | _ => exact hpc.elim

/-- The user got no copy, or one, and it is on record or about to be recorded. -/
def Copied (b : BatchState) (recording : ℤ → Prop) (userId : ℤ) : Prop :=
  b.copies userId = 0 ∨ b.copies userId = 1 ∧ (b.IsSent userId ∨ recording userId)

theorem Copied.of_not_recording {recording : ℤ → Prop} (h : b.Copied recording userId)
    (hnot : ¬ recording userId) (recording' : ℤ → Prop) : b.Copied recording' userId :=
  h.imp_right (And.imp_right fun hor => Or.inl (hor.resolve_right hnot))

end BatchState

/-! ### The invariant -/

/-- A run stands at the call: the users left on its page have an open delivery. -/
structure Ready (pc : SendPc) (b : BatchState) : Prop where
  ordered : pc.users.Pairwise (· < ·)
  isOpen : ∀ userId ∈ pc.users, b.IsOpen userId

theorem ready_of_users_eq_nil {pc : SendPc} {b : BatchState} (h : pc.users = []) : Ready pc b := by
  refine ⟨?_, ?_⟩ <;> rw [h]
  · exact List.Pairwise.nil
  · exact fun _ hmem => nomatch hmem

/-- Copies that were sent are on record, and a run sends only where nothing is on record. -/
def sentOnce : BatchInvariant where
  quiet b := ∀ userId, b.Copied (fun _ => False) userId
  running pc b := Ready pc b ∧ ∀ userId, b.Copied (pc.records ·) userId

/-- A successful send is recorded: the record does not fail, and the task is not cancelled, nor the
process stopped, between the two. -/
def recordsSend : StepCondition where
  turn pc _ reply :=
    match pc with
    | .copying _ _ _ => reply ≠ .cancels true
    | .marking _ _ .sent => reply ≠ .raises false ∧ reply ≠ .cancels false
    | _ => True
  cancel _ := True
  stop pc := ∀ userId, ¬ pc.records userId

section Turn

variable {batchSize id now : ℕ} {retryFailed : Bool} {b : BatchState} {pc pc' : SendPc} {userId : ℤ}

/-- The users on the rest of the page keep their open deliveries. -/
theorem Ready.next (h : Ready pc b) (hnext : pc.next batchSize id retryFailed b = some pc') :
    Ready pc' (pc.effect now b) := by
  cases pc with
  | marking u rest status =>
    have husers : pc'.users = rest := by
      rw [SendPc.next] at hnext
      split_ifs at hnext <;> cases hnext
      · exact SendPc.users_nextDelivery u rest
      · rfl
    obtain ⟨hfirst, hrest⟩ := List.pairwise_cons.1 h.ordered
    refine ⟨husers ▸ hrest, fun userId hmem => ?_⟩
    rw [husers] at hmem
    refine (h.isOpen userId (List.mem_cons_of_mem _ hmem)).effect fun rest' status' heq => ?_
    cases heq
    exact lt_irrefl _ (hfirst _ hmem)
  | page lastSeenId =>
    rw [SendPc.next] at hnext
    split at hnext
    · cases hnext
      exact ready_of_users_eq_nil rfl
    · next u rest hpage =>
      cases hnext
      have hordered := b.deliveries.listPending_ordered (max batchSize 1) lastSeenId retryFailed
      rw [hpage] at hordered
      refine ⟨hordered, fun userId hmem => ?_⟩
      change userId ∈ u :: rest at hmem
      rw [← hpage] at hmem
      obtain ⟨row, hrow, hid, hopen, -⟩ := Deliveries.mem_listPending hmem
      exact ⟨row, hrow, hid, hopen⟩
  | deliveryCheck lastSeenId u rest =>
    rw [SendPc.next] at hnext
    split_ifs at hnext <;> cases hnext
    · exact ready_of_users_eq_nil rfl
    · exact ⟨h.ordered, h.isOpen⟩
    · exact ⟨h.ordered, h.isOpen⟩
  | pausing u rest =>
    cases hnext
    have husers := SendPc.users_nextDelivery u rest
    refine ⟨?_, fun userId hmem => h.isOpen userId ?_⟩
    · rw [husers]
      exact h.ordered
    · rw [husers] at hmem
      exact hmem
  | eligibility | copying =>
    cases hnext
    exact ⟨h.ordered, h.isOpen⟩
  | firstCheck | pageCheck =>
    rw [SendPc.next] at hnext
    split_ifs at hnext <;> cases hnext <;> exact ready_of_users_eq_nil rfl
  | readingBatch ending =>
    rw [SendPc.next] at hnext
    split at hnext
    · rw [SendPc.raised] at hnext
      split_ifs at hnext
      cases hnext
      exact ready_of_users_eq_nil rfl
    · cases hnext
      exact ready_of_users_eq_nil rfl
  | readingGroups =>
    rw [SendPc.next] at hnext
    split_ifs at hnext
    cases hnext
    exact ready_of_users_eq_nil rfl
  | setFailed | auditing => cases hnext
  | setSending | refreshing | finishing | finalRefresh =>
    cases hnext
    exact ready_of_users_eq_nil rfl

theorem ready_of_mem_raised (h : pc.raised = some pc') : Ready pc' b := by
  rw [SendPc.raised] at h
  split_ifs at h
  cases h
  exact ready_of_users_eq_nil rfl

theorem SendPc.mem_users_of_records (h : pc.records userId) : userId ∈ pc.users := by
  cases pc with
  | marking u rest status =>
    obtain ⟨rfl, -⟩ := h
    exact List.mem_cons_self
  | _ => exact h.elim

theorem copies_eq_zero (h : sentOnce.running pc b) (hmem : userId ∈ pc.users)
    (hpc : ¬ pc.records userId) : b.copies userId = 0 := by
  rcases h.2 userId with hzero | ⟨-, hsent | hrecords⟩
  · exact hzero
  · exact absurd hsent (h.1.isOpen userId hmem).not_isSent
  · exact absurd hrecords hpc

theorem copied_effect (h : sentOnce.running pc b) (hpc : ∀ u rest attempt, pc ≠ .copying u rest attempt)
    (now : ℕ) (recording : ℤ → Prop) : (pc.effect now b).Copied recording userId := by
  have hcopies : (pc.effect now b).copies = b.copies := by
    cases pc with
    | copying u rest attempt => exact absurd rfl (hpc u rest attempt)
    | _ => rfl
  rw [BatchState.Copied, hcopies]
  refine (h.2 userId).imp_right (And.imp_right fun hor => Or.inl ?_)
  rcases hor with hsent | hrecords
  · exact hsent.effect
  · exact (h.1.isOpen userId (SendPc.mem_users_of_records hrecords)).isSent_effect hrecords

theorem copied_applied (h : sentOnce.running pc b) (hpc : ∀ u rest attempt, pc ≠ .copying u rest attempt)
    (hrecords : ¬ pc.records userId) (now : ℕ) (applied : Bool) (recording : ℤ → Prop) :
    (if applied = true then pc.effect now b else b).Copied recording userId := by
  split_ifs
  · exact copied_effect h hpc now recording
  · exact (h.2 userId).of_not_recording hrecords recording

theorem copied_copying {u : ℤ} {rest : List ℤ} {attempt : ℕ}
    (h : sentOnce.running (.copying u rest attempt) b) :
    ((SendPc.copying u rest attempt).effect now b).Copied
      ((SendPc.marking u rest .sent).records ·) userId := by
  by_cases hu : userId = u
  · subst hu
    have hzero : b.copies userId = 0 :=
      copies_eq_zero h List.mem_cons_self fun hrecords => hrecords
    refine Or.inr ⟨?_, Or.inr ⟨rfl, rfl⟩⟩
    change Function.update b.copies userId _ userId = 1
    rw [Function.update_self, hzero]
  · have hcopies : ((SendPc.copying u rest attempt).effect now b).copies userId = b.copies userId :=
      Function.update_of_ne hu _ _
    rw [BatchState.Copied, hcopies]
    -- a copy leaves the table of deliveries as it is
    exact (h.2 userId).of_not_recording (fun hrecords => hrecords)
      ((SendPc.marking u rest .sent).records ·)

end Turn

/-- **Each copy is sent once.** -/
theorem sentOnce_kept (batchSize : ℕ) : sentOnce.Kept recordsSend batchSize where
  created b recipientIds scheduledAt _ h userId :=
    (h userId).imp_right (And.imp_right (Or.imp_left Deliveries.mem_insertAll_of_mem))
  entered b h := ⟨ready_of_users_eq_nil rfl, fun userId => (h userId).of_not_recording (fun hrecords => hrecords) _⟩
  cancelledQuiet _ _ _ h := h
  cancelledRunning _ _ _ _ h := ⟨⟨h.1.ordered, h.1.isOpen⟩, h.2⟩
  stopped b pc hstop h userId := (h.2 userId).of_not_recording (hstop userId) _
  turned id retryFailed now b pc reply pc' b' h hc hturn := by
    -- a step that records nothing for anybody and keeps the list
    have hstay : ∀ {pc'}, pc'.users = pc.users → (∀ userId, ¬ pc.records userId) →
        sentOnce.running pc' b := fun husers hpc =>
      ⟨⟨husers ▸ h.1.ordered, husers ▸ h.1.isOpen⟩,
        fun userId => (h.2 userId).of_not_recording (hpc userId) _⟩
    cases reply with
    | returns =>
      cases hturn
      cases hnext : pc.next batchSize id retryFailed b with
      | none =>
        intro userId
        refine copied_effect h ?_ now _
        rintro u rest attempt rfl
        cases hnext
      | some pc' =>
        refine ⟨h.1.next hnext, fun userId => ?_⟩
        cases pc with
        | copying u rest attempt =>
          cases hnext
          exact copied_copying h
        | _ => exact copied_effect h nofun now _
    | ineligible =>
      cases pc <;> cases hturn
      exact hstay rfl fun _ hrecords => hrecords
    | retryAfter =>
      cases pc with
      | copying u rest attempt =>
        rw [SendPc.turn] at hturn
        split_ifs at hturn <;> cases hturn <;> exact hstay rfl fun _ hrecords => hrecords
      | _ => cases hturn
    -- the write may have reached the database although it raised
    | raises applied =>
      cases pc with
      | copying u rest attempt =>
        cases hturn
        exact hstay rfl fun _ hrecords => hrecords
      | marking u rest status =>
        cases hturn
        refine ⟨ready_of_users_eq_nil rfl, fun userId => ?_⟩
        cases applied with
        | true => exact copied_effect h nofun now _
        | false =>
          refine (h.2 userId).of_not_recording ?_ _
          rintro ⟨-, rfl⟩
          -- the copy went out and its record did not: excluded by the condition
          exact hc.1 rfl
      | _ =>
        cases hturn
        cases hraised : SendPc.raised _ with
        | none => exact fun userId => copied_applied h nofun (fun hrecords => hrecords) now applied _
        | some pc' =>
          exact ⟨ready_of_mem_raised hraised,
            fun userId => copied_applied h nofun (fun hrecords => hrecords) now applied _⟩
    | cancels applied =>
      cases hturn
      intro userId
      cases applied with
      | true =>
        refine copied_effect h ?_ now _
        rintro u rest attempt rfl
        exact hc rfl
      | false =>
        refine (h.2 userId).of_not_recording ?_ _
        intro hrecords
        cases pc with
        | marking u rest status =>
          obtain ⟨-, rfl⟩ := hrecords
          exact hc.2 rfl
        | _ => exact hrecords

/-! ### Every run -/

/-- **At most one copy of a batch reaches a user.** -/
theorem atMostOneCopy {batchSize : ℕ} {s s' : System} {actions : List Action} (hfresh : s.Fresh)
    (hnone : ∀ id userId, (s.batches id).copies userId = 0)
    (hrecorded : Allowed (step batchSize) recordsSend.Meets s actions)
    (hrun : runFrom (step batchSize) s actions = some s') (id : ℕ) (userId : ℤ) :
    (s'.batches id).copies userId ≤ 1 := by
  have hstart : s.Keeps sentOnce := .of_fresh hfresh fun id userId => Or.inl (hnone id userId)
  have hend : s'.Keeps sentOnce := (sentOnce_kept batchSize).run hstart hrecorded hrun
  obtain ⟨pc, hreached⟩ := hend.reached id
  have hcopied : ∃ recording, (s'.batches id).Copied recording userId := by
    cases pc with
    | none => exact ⟨_, hreached userId⟩
    | some pc => exact ⟨_, hreached.2 userId⟩
  obtain ⟨recording, hzero | ⟨hone, -⟩⟩ := hcopied
  · rw [hzero]
    exact Nat.zero_le 1
  · exact hone.le

/-- Two deliveries of one batch that overlap: the second one waits for the lock of the first. -/
def overlappingRun : List Action :=
  .create 0 [7] none :: .resume 1 1 true :: .move 1 0 .returns ::
    List.replicate 19 (.move 0 0 .returns) ++ List.replicate 6 (.move 1 0 .returns)

theorem atMostOneCopy_overlappingRun :
    ∃ s', runFrom (step 100) System.initial overlappingRun = some s' ∧
      (s'.batches 1).copies 7 = 1 ∧ (s'.batches 1).copies 7 ≤ 1 := by
  have hcopies : (runFrom (step 100) System.initial overlappingRun).map
      (fun s => (s.batches 1).copies 7) = some 1 := rfl
  obtain ⟨s', hrun, hone⟩ := Option.map_eq_some_iff.1 hcopies
  refine ⟨s', hrun, hone, atMostOneCopy fresh_initial (fun _ _ => rfl) ?_ hrun 1 7⟩
  refine allowed_of_forall (fun a ha s => ?_) _
  have hreturns : ∀ t, recordsSend.Meets s (.move t 0 .returns) := by
    intro t
    rw [StepCondition.Meets]
    split
    · dsimp only [recordsSend]
      split <;> simp
    · exact fun _ => trivial
    · exact trivial
  rw [overlappingRun] at ha
  simp only [List.cons_append, List.mem_cons, List.mem_append, List.mem_replicate] at ha
  rcases ha with rfl | rfl | rfl | ⟨-, rfl⟩ | ⟨-, rfl⟩
  · exact trivial
  · exact trivial
  · exact hreturns 1
  · exact hreturns 0
  · exact hreturns 1

end VpnBot.Announcements
