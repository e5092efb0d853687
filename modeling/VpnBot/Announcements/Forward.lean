import VpnBot.Announcements.BatchInvariant

/-!
# The status of a batch moves forward

A run that queued on the lock before its batch was completed sets the completed batch back to
`sending`, `mark_cancelled` does not look at the status that it overwrites, and a delivery to an id
that is not positive stays pending, as the first page begins behind 0; `forwardOnly` excludes these
three steps.  In every run without them a batch that is completed or cancelled stays as it is, and a
completed batch has only `sent` deliveries (`status_forward`).
-/

namespace VpnBot.Announcements

open Sys

namespace BatchState

variable {b : BatchState} {after : ℤ} {left : List ℤ} {userId : ℤ} {now : ℕ}

/-- The batch is completed or cancelled. -/
def IsTerminal (b : BatchState) : Prop :=
  b.status = some .completed ∨ b.status = some .cancelled

/-- A completed batch has only `sent` deliveries. -/
def Honest (b : BatchState) : Prop :=
  b.status = some .completed → ∀ row ∈ b.deliveries.rows, row.status = .sent

/-- What is still pending for a positive id is left on the page, or comes behind it. -/
def Swept (b : BatchState) (after : ℤ) (left : List ℤ) : Prop :=
  ∀ row ∈ b.deliveries.rows, row.status = .pending → 0 < row.userId →
    row.userId ∈ left ∨ after < row.userId ∧ ∀ userId ∈ left, userId < row.userId

/-- Nothing is pending for a positive id. -/
def Drained (b : BatchState) : Prop :=
  ∀ row ∈ b.deliveries.rows, row.status = .pending → row.userId ≤ 0

theorem status_setBatchStatus (b : BatchState) (status : BatchStatus) (now : ℕ) (completed : Bool) :
    (b.setBatchStatus status now completed).status =
      b.status.map fun old => if old = .cancelled then .cancelled else status := by
  rw [BatchState.status, BatchState.status, setBatchStatus, updateBatch, Option.map_map,
    Option.map_map]
  refine congrArg (Option.map · b.batch) (funext fun batch => ?_)
  rw [Function.comp_apply, Function.comp_apply]
  by_cases hcancelled : batch.status = .cancelled
  · rw [if_pos hcancelled, if_pos hcancelled, hcancelled]
  · rw [if_neg hcancelled, if_neg hcancelled]

theorem status_setBatchStatus_ne (b : BatchState) (status : BatchStatus)
    (hstatus : status ≠ .completed) (now : ℕ) (completed : Bool) :
    (b.setBatchStatus status now completed).status ≠ some .completed := by
  rw [status_setBatchStatus]
  intro h
  obtain ⟨old, -, heq⟩ := Option.map_eq_some_iff.1 h
  split_ifs at heq
  exact hstatus heq

theorem status_setBatchStatus_of_cancelled (h : b.status = some .cancelled) (status : BatchStatus)
    (now : ℕ) (completed : Bool) :
    (b.setBatchStatus status now completed).status = some .cancelled := by
  rw [status_setBatchStatus, h]
  rfl

theorem status_markCancelled (b : BatchState) (now : ℕ) :
    (b.markCancelled now).status = b.status.map fun _ => .cancelled := by
  rw [BatchState.status, BatchState.status, markCancelled, updateBatch, Option.map_map,
    Option.map_map]
  rfl

theorem status_markCancelled_ne (b : BatchState) (now : ℕ) :
    (b.markCancelled now).status ≠ some .completed := by
  rw [status_markCancelled]
  intro h
  obtain ⟨-, -, heq⟩ := Option.map_eq_some_iff.1 h
  cases heq

theorem status_refreshBatchCounts (b : BatchState) : b.refreshBatchCounts.status = b.status := by
  rw [BatchState.status, BatchState.status, refreshBatchCounts, updateBatch, Option.map_map]
  rfl

theorem Honest.of_status_ne (h : b.status ≠ some .completed) : b.Honest := fun heq => absurd heq h

/-- At the first page everything is ahead. -/
theorem swept_start (b : BatchState) : b.Swept 0 [] := fun _ _ _ hpos => Or.inr ⟨hpos, nofun⟩

theorem Swept.page (h : b.Swept after []) (limit : ℕ) (retryFailed : Bool) :
    b.Swept after (b.deliveries.listPending limit after retryFailed) := by
  intro row hrow hpending hpos
  obtain hnil | ⟨hafter, -⟩ := h row hrow hpending hpos
  · cases hnil
  · exact (Deliveries.pending_of_listPending hrow hpending hafter).imp_right fun hbehind =>
      ⟨hafter, hbehind⟩

/-- An empty page ends the sweep. -/
theorem Swept.drained (h : b.Swept after []) {limit : ℕ} {retryFailed : Bool} (hlimit : 0 < limit)
    (hnil : b.deliveries.listPending limit after retryFailed = []) : b.Drained := by
  intro row hrow hpending
  by_contra hpos
  obtain hleft | ⟨hafter, -⟩ := h row hrow hpending (not_le.1 hpos)
  · cases hleft
  · exact Deliveries.not_pending_of_listPending_eq_nil hlimit hnil hrow hafter hpending

theorem Swept.of_after (h : b.Swept after left) : b.Swept 0 left := fun row hrow hpending hpos =>
  (h row hrow hpending hpos).imp_right fun hbehind => ⟨hpos, hbehind.2⟩

theorem Swept.mark {status : DeliveryStatus} (h : b.Swept after (userId :: left))
    (hstatus : status ≠ .pending) : (b.markDelivery userId status).Swept userId left := by
  intro row hrow hpending hpos
  obtain ⟨hne, hrow⟩ := Deliveries.not_pending_of_mark hrow hstatus hpending
  obtain hleft | ⟨-, hbehind⟩ := h row hrow hpending hpos
  · exact Or.inl ((List.mem_cons.1 hleft).resolve_left hne)
  · exact Or.inr ⟨hbehind userId List.mem_cons_self,
      fun other hmem => hbehind other (List.mem_cons_of_mem _ hmem)⟩

end BatchState

/-! ### The invariant -/

namespace SendPc

/-- Between the start of a run and its last status, the batch is `sending`, or cancelled. -/
def working : SendPc → Bool
  | setSending | finalRefresh _ | auditing _ => false
  | _ => true

/-- How far the run is through the pending deliveries. -/
def Progress (b : BatchState) : SendPc → Prop
  | pageCheck lastSeenId | page lastSeenId => b.Swept lastSeenId []
  | deliveryCheck lastSeenId userId rest => b.Swept lastSeenId (userId :: rest)
  | eligibility userId rest | copying userId rest _ => b.Swept 0 (userId :: rest)
  | marking userId rest status => status ≠ .pending ∧ b.Swept 0 (userId :: rest)
  | pausing userId rest => b.Swept userId rest
  | refreshing ending | readingBatch ending | readingGroups ending _ =>
    ending.cancelled = false → b.Drained
  | finishing result =>
    result.failed = 0 → ∀ row ∈ b.deliveries.rows, row.status ≠ .sent →
      row.status = .pending ∧ row.userId ≤ 0
  | setSending | firstCheck | setFailed | finalRefresh _ | auditing _ => True

theorem progress_nextDelivery {b : BatchState} {userId : ℤ} {rest : List ℤ}
    (h : b.Swept userId rest) : (nextDelivery userId rest).Progress b := by
  cases rest <;> exact h

end SendPc

/-- A completed batch is honest; a run that works on a batch has not completed it, and leaves nothing
pending behind. -/
def honestCompletion : BatchInvariant where
  quiet := BatchState.Honest
  running pc b := b.Honest ∧ (pc.working = true → b.status ≠ some .completed) ∧ pc.Progress b

/-- A run begins, and `cancel_batch` writes, only while the batch is not completed; and a batch is
completed only when no delivery to an id that is not positive is pending. -/
def forwardOnly : StepCondition where
  turn pc b reply :=
    match pc with
    | .setSending => reply.applies = true → b.status ≠ some .completed
    | .finishing result =>
      reply.applies = true → result.failed = 0 →
        ∀ row ∈ b.deliveries.rows, row.status = .pending → 0 < row.userId
    | _ => True
  cancel b := b.status ≠ some .completed
  stop _ := True

instance : ∀ pc b reply, Decidable (forwardOnly.turn pc b reply)
  | .setSending, b, reply =>
    inferInstanceAs (Decidable (reply.applies = true → b.status ≠ some .completed))
  | .finishing result, b, reply =>
    inferInstanceAs (Decidable (reply.applies = true → result.failed = 0 →
      ∀ row ∈ b.deliveries.rows, row.status = .pending → 0 < row.userId))
  | .firstCheck, _, _ | .pageCheck _, _, _ | .page _, _, _ | .deliveryCheck _ _ _, _, _
  | .eligibility _ _, _, _ | .copying _ _ _, _, _ | .marking _ _ _, _, _ | .pausing _ _, _, _
  | .setFailed, _, _ | .refreshing _, _, _ | .readingBatch _, _, _ | .readingGroups _ _, _, _
  | .finalRefresh _, _, _ | .auditing _, _, _ => .isTrue trivial

instance (s : System) : ∀ a, Decidable (forwardOnly.Meets s a)
  | .move t _ reply =>
    match h : (s.tasks t).place with
    | .sending id _ pc =>
      decidable_of_iff (forwardOnly.turn pc (s.batches id) reply) (by rw [StepCondition.Meets, h])
    | .cancelWrite id =>
      decidable_of_iff (reply.applies = true → (s.batches id).status ≠ some .completed)
        (by rw [StepCondition.Meets, h]; rfl)
    | .idle | .resumeRead _ _ | .cancelRead _ | .cancelReread _ | .wantLock _ _ =>
      .isTrue (by rw [StepCondition.Meets, h]; trivial)
  | .restart => .isTrue fun _ _ _ _ _ => trivial
  | .create _ _ _ | .resume _ _ _ | .scan _ _ | .cancel _ _ => .isTrue trivial

section Turn

variable {batchSize id now : ℕ} {retryFailed : Bool} {b : BatchState} {pc pc' : SendPc}

theorem forwardOnly_of_applies {reply : Reply} (hc : forwardOnly.turn pc b reply)
    (happlies : reply.applies = true) : forwardOnly.turn pc b .returns := by
  cases pc with
  | setSending | finishing => exact fun _ => hc happlies
  | _ => exact trivial

theorem SendPc.turn_batch {reply : Reply} {after : Option SendPc} {b' : BatchState}
    (hturn : pc.turn batchSize id retryFailed now b reply = some (after, b')) :
    b' = b ∨ reply.applies = true ∧ b' = pc.effect now b := by
  have hif : ∀ applied, (if applied = true then pc.effect now b else b) = b ∨
      applied = true ∧ (if applied = true then pc.effect now b else b) = pc.effect now b := by
    intro applied
    cases applied
    · exact Or.inl rfl
    · exact Or.inr ⟨rfl, rfl⟩
  cases reply with
  | returns =>
    cases hturn
    exact Or.inr ⟨rfl, rfl⟩
  | ineligible =>
    cases pc <;> cases hturn
    exact Or.inl rfl
  | retryAfter =>
    cases pc with
    | copying =>
      rw [SendPc.turn] at hturn
      split_ifs at hturn <;> cases hturn <;> exact Or.inl rfl
    | _ => cases hturn
  | raises applied =>
    cases pc with
    | copying =>
      cases hturn
      exact Or.inl rfl
    | _ =>
      cases hturn
      exact hif applied
  | cancels applied =>
    cases hturn
    exact hif applied

/-- A run that ends with no failed delivery has nothing but `sent` ones and, for ids that are not
positive, pending ones. -/
theorem progress_finishing {total : ℕ} {ending : Ending} (h : b.Drained) :
    (SendPc.finishing (ledgerResult id total ending b.deliveries)).Progress b := by
  intro hfailed row hrow hsent
  have hnone : ∀ status, (b.deliveries.userIds status).length = 0 → row.status ≠ status :=
    fun status hlength => Deliveries.userIds_eq_nil_iff.1 (List.length_eq_zero_iff.1 hlength) row hrow
  obtain ⟨hfailed, hskipped⟩ := Nat.add_eq_zero_iff.1 hfailed
  have hpending : row.status = .pending := by
    cases hstatus : row.status with
    | pending => rfl
    | sent => exact absurd hstatus hsent
    | failed => exact absurd hstatus (hnone .failed hfailed)
    | skipped => exact absurd hstatus (hnone .skipped hskipped)
  exact ⟨hpending, h row hrow hpending⟩

/-- The run gets on with its pages. -/
theorem SendPc.Progress.next (h : pc.Progress b)
    (hnext : pc.next batchSize id retryFailed b = some pc') : pc'.Progress (pc.effect now b) := by
  cases pc with
  | firstCheck =>
    rw [SendPc.next] at hnext
    split_ifs at hnext <;> cases hnext
    · exact nofun
    · exact b.swept_start
  | pageCheck lastSeenId =>
    rw [SendPc.next] at hnext
    split_ifs at hnext <;> cases hnext
    · exact nofun
    · exact h
  | page lastSeenId =>
    have hpage := BatchState.Swept.page h (max batchSize 1) retryFailed
    rw [SendPc.next] at hnext
    split at hnext <;> cases hnext
    · next hnil => exact fun _ => BatchState.Swept.drained h (by omega) hnil
    · next userId rest hcons =>
      rw [hcons] at hpage
      exact hpage
  | deliveryCheck lastSeenId userId rest =>
    rw [SendPc.next] at hnext
    split_ifs at hnext <;> cases hnext
    · exact nofun
    · exact ⟨nofun, BatchState.Swept.of_after h⟩
    · exact BatchState.Swept.of_after h
  | eligibility userId rest =>
    cases hnext
    exact h
  | copying userId rest attempt =>
    cases hnext
    exact ⟨nofun, h⟩
  | marking userId rest status =>
    have hswept := h.2.mark h.1
    rw [SendPc.next] at hnext
    split_ifs at hnext <;> cases hnext
    · exact SendPc.progress_nextDelivery hswept
    · exact hswept
  | pausing userId rest =>
    cases hnext
    exact SendPc.progress_nextDelivery h
  | refreshing ending =>
    cases hnext
    exact h
  | readingBatch ending =>
    rw [SendPc.next] at hnext
    split at hnext
    · rw [SendPc.raised] at hnext
      split_ifs at hnext
      cases hnext
      exact trivial
    · cases hnext
      exact h
  | readingGroups ending total =>
    rw [SendPc.next] at hnext
    split_ifs at hnext with hcancelled
    cases hnext
    exact progress_finishing (h (Bool.eq_false_iff.2 hcancelled))
  | setFailed | auditing => cases hnext
  | setSending | finishing | finalRefresh =>
    cases hnext
    exact trivial

theorem honest_effect (h : honestCompletion.running pc b) (hc : forwardOnly.turn pc b .returns)
    (now : ℕ) : (pc.effect now b).Honest := by
  obtain ⟨hhonest, hworking, hprogress⟩ := h
  cases pc with
  | setSending => exact .of_status_ne (b.status_setBatchStatus_ne .sending nofun now false)
  | setFailed => exact .of_status_ne (b.status_setBatchStatus_ne .failed nofun now false)
  | finishing result =>
    by_cases hfailed : result.failed = 0
    · intro _ row hrow
      by_contra hsent
      obtain ⟨hpending, hid⟩ := hprogress hfailed row hrow hsent
      exact absurd (hc rfl hfailed row hrow hpending) (not_lt.2 hid)
    · refine .of_status_ne ?_
      rw [SendPc.effect, if_neg hfailed]
      exact b.status_setBatchStatus_ne .failed nofun now _
  | marking => exact .of_status_ne (hworking rfl)
  | refreshing | finalRefresh =>
    intro hcompleted
    rw [SendPc.effect, BatchState.status_refreshBatchCounts] at hcompleted
    exact hhonest hcompleted
  | _ => exact hhonest

theorem status_effect_ne (h : honestCompletion.running pc b)
    (hnext : pc.next batchSize id retryFailed b = some pc') (hworking : pc'.working = true)
    (now : ℕ) : (pc.effect now b).status ≠ some .completed := by
  cases pc with
  | setSending => exact b.status_setBatchStatus_ne .sending nofun now false
  | refreshing =>
    rw [SendPc.effect, BatchState.status_refreshBatchCounts]
    exact h.2.1 rfl
  | finishing | finalRefresh =>
    cases hnext
    cases hworking
  | setFailed | auditing => cases hnext
  | _ => exact h.2.1 rfl

theorem status_raised_ne (h : honestCompletion.running pc b) (hraised : pc.raised = some pc')
    (now : ℕ) (applied : Bool) :
    (if applied = true then pc.effect now b else b).status ≠ some .completed := by
  rw [SendPc.raised] at hraised
  split_ifs at hraised with htry
  cases pc with
  | setSending | firstCheck | setFailed | finishing | finalRefresh | auditing => cases htry
  | refreshing =>
    rw [SendPc.effect]
    cases applied
    · exact h.2.1 rfl
    · rw [if_pos rfl, BatchState.status_refreshBatchCounts]
      exact h.2.1 rfl
  | _ => cases applied <;> exact h.2.1 rfl

theorem status_effect_of_isTerminal (h : honestCompletion.running pc b)
    (hc : forwardOnly.turn pc b .returns) (hterminal : b.IsTerminal) (now : ℕ) :
    (pc.effect now b).status = b.status := by
  have hset : ∀ status completed, b.status ≠ some .completed →
      (b.setBatchStatus status now completed).status = b.status := by
    intro status completed hne
    have hcancelled := hterminal.resolve_left hne
    rw [BatchState.status_setBatchStatus_of_cancelled hcancelled, hcancelled]
  cases pc with
  | setSending => exact hset _ _ (hc rfl)
  | setFailed | finishing => exact hset _ _ (h.2.1 rfl)
  | refreshing | finalRefresh => exact b.status_refreshBatchCounts
  | _ => rfl

end Turn

/-- **A completed batch is honest.** -/
theorem honestCompletion_kept (batchSize : ℕ) : honestCompletion.Kept forwardOnly batchSize where
  created b recipientIds scheduledAt _ _ := by
    refine .of_status_ne fun heq => ?_
    cases scheduledAt <;> cases heq
  entered b h := ⟨h, fun hworking => (by cases hworking), trivial⟩
  cancelledQuiet b now _ _ := .of_status_ne (b.status_markCancelled_ne now)
  cancelledRunning b now pc _ h :=
    ⟨.of_status_ne (b.status_markCancelled_ne now), fun _ => b.status_markCancelled_ne now, h.2.2⟩
  stopped _ _ _ h := h.1
  turned id retryFailed now b pc reply pc' b' h hc hturn := by
    have hhonest : b'.Honest := by
      rcases SendPc.turn_batch hturn with rfl | ⟨happlies, rfl⟩
      · exact h.1
      · exact honest_effect h (forwardOnly_of_applies hc happlies) now
    cases reply with
    | returns =>
      cases hturn
      cases hnext : pc.next batchSize id retryFailed b with
      | none => exact hhonest
      | some pc' =>
        exact ⟨hhonest, fun hworking => status_effect_ne h hnext hworking now, h.2.2.next hnext⟩
    | ineligible =>
      cases pc <;> cases hturn
      exact ⟨h.1, fun _ => h.2.1 rfl, fun hre => (by cases hre), h.2.2⟩
    | retryAfter =>
      cases pc with
      | copying userId rest attempt =>
        rw [SendPc.turn] at hturn
        split_ifs at hturn <;> cases hturn
        · exact ⟨h.1, fun _ => h.2.1 rfl, h.2.2⟩
        · exact ⟨h.1, fun _ => h.2.1 rfl, fun hre => (by cases hre), h.2.2⟩
      | _ => cases hturn
    | raises applied =>
      cases pc with
      | copying userId rest attempt =>
        cases hturn
        exact ⟨h.1, fun _ => h.2.1 rfl, fun hre => (by cases hre), h.2.2⟩
      | _ =>
        cases hturn
        cases hraised : SendPc.raised _ with
        | none => exact hhonest
        | some pc' =>
          refine ⟨hhonest, fun _ => status_raised_ne h hraised now applied, ?_⟩
          rw [SendPc.raised] at hraised
          split_ifs at hraised
          cases hraised
          exact trivial
    | cancels applied =>
      cases hturn
      exact hhonest

/-! ### What a step does to a batch -/

/-- What may happen to a batch in a step. -/
inductive Change (batchSize : ℕ) (s : System) (id : ℕ) : Action → BatchState → Prop
  | stays (a : Action) : Change batchSize s id a (s.batches id)
  | created (t : Task) (recipientIds : List ℤ) (scheduledAt : Option ℕ) (hid : id = s.nextId) :
    Change batchSize s id (.create t recipientIds scheduledAt)
      ((s.batches id).createBatch recipientIds scheduledAt)
  | turned {t : Task} {now : ℕ} {reply : Reply} {retryFailed : Bool} {pc : SendPc}
    {pc' : Option SendPc} {b : BatchState} (hplace : (s.tasks t).place = .sending id retryFailed pc)
    (hturn : pc.turn batchSize id retryFailed now (s.batches id) reply = some (pc', b)) :
    Change batchSize s id (.move t now reply) b
  | cancelled {t : Task} {now : ℕ} {reply : Reply} (hplace : (s.tasks t).place = .cancelWrite id)
    (happlies : reply.applies = true) :
    Change batchSize s id (.move t now reply) ((s.batches id).markCancelled now)

section Step

variable {batchSize : ℕ} {s s' : System} {a : Action}

theorem change_cancelBatch {t : Task} {cancelled now : ℕ} {reply : Reply}
    (hplace : (s.tasks t).place = .cancelWrite cancelled) (happlies : reply.applies = true) (id : ℕ) :
    Change batchSize s id (.move t now reply) ((s.cancelBatch cancelled now).batches id) := by
  change Change batchSize s id _ (Function.update s.batches cancelled _ id)
  by_cases hid : id = cancelled
  · subst hid
    rw [Function.update_self]
    exact .cancelled hplace happlies
  · rw [Function.update_of_ne hid]
    exact .stays _

theorem change_move {t : Task} {now : ℕ} {reply : Reply}
    (hmove : s.move batchSize t now reply = some s') (id : ℕ) :
    Change batchSize s id (.move t now reply) (s'.batches id) := by
  rw [System.move.eq_def] at hmove
  cases hplace : (s.tasks t).place with
  | idle =>
    rw [hplace] at hmove
    cases hmove
  | resumeRead | cancelRead | wantLock =>
    rw [hplace] at hmove
    cases reply with
    | returns =>
      dsimp only at hmove
      split at hmove <;> cases hmove <;> exact .stays _
    | _ =>
      cases hmove
      try exact .stays _
  | cancelReread =>
    rw [hplace] at hmove
    cases reply <;> cases hmove <;> exact .stays _
  | cancelWrite cancelled =>
    rw [hplace] at hmove
    cases reply with
    | returns =>
      cases hmove
      exact change_cancelBatch hplace rfl id
    | raises applied | cancels applied =>
      cases hmove
      cases applied with
      | true => exact change_cancelBatch hplace rfl id
      | false => exact .stays _
    | ineligible | retryAfter => cases hmove
  | sending sent retryFailed pc =>
    rw [hplace] at hmove
    obtain ⟨⟨pc', b⟩, hturn, rfl⟩ := Option.map_eq_some_iff.1 hmove
    change Change batchSize s id _ (Function.update s.batches sent b id)
    by_cases hid : id = sent
    · subst hid
      rw [Function.update_self]
      exact .turned hplace hturn
    · rw [Function.update_of_ne hid]
      exact .stays _

theorem change_step (hstep : step batchSize s a = some s') (id : ℕ) :
    Change batchSize s id a (s'.batches id) := by
  cases a with
  | create t recipientIds scheduledAt =>
    have hcreated : Change batchSize s id (.create t recipientIds scheduledAt)
        (Function.update s.batches s.nextId
          ((s.batches s.nextId).createBatch recipientIds scheduledAt) id) := by
      by_cases hid : id = s.nextId
      · subst hid
        rw [Function.update_self]
        exact .created t recipientIds scheduledAt rfl
      · rw [Function.update_of_ne hid]
        exact .stays _
    rw [step] at hstep
    split_ifs at hstep
    cases scheduledAt <;> cases hstep <;> exact hcreated
  | resume | scan | cancel =>
    rw [step] at hstep
    split_ifs at hstep
    cases hstep
    exact .stays _
  | move t now reply => exact change_move hstep id
  | restart =>
    cases hstep
    exact .stays _

/-- **A terminal status survives every step.** -/
theorem status_step (hkeeps : s.Keeps honestCompletion) (hc : forwardOnly.Meets s a)
    (hstep : step batchSize s a = some s') {id : ℕ} (hterminal : (s.batches id).IsTerminal) :
    (s'.batches id).status = (s.batches id).status := by
  have hchange := change_step hstep id
  generalize s'.batches id = b' at hchange ⊢
  cases hchange with
  | stays => rfl
  | created t recipientIds scheduledAt hid =>
    have hnone := hkeeps.ids id hid.ge
    rcases hterminal with hterminal | hterminal <;>
      · rw [BatchState.status, hnone] at hterminal
        cases hterminal
  | cancelled hplace happlies =>
    rw [StepCondition.Meets, hplace] at hc
    rw [BatchState.status_markCancelled, hterminal.resolve_left (hc happlies)]
    rfl
  | turned hplace hturn =>
    rw [StepCondition.Meets, hplace] at hc
    rcases SendPc.turn_batch hturn with rfl | ⟨happlies, rfl⟩
    · rfl
    · exact status_effect_of_isTerminal (hkeeps.running _ _ _ _ hplace)
        (forwardOnly_of_applies hc happlies) hterminal _

end Step

/-! ### Every run -/

/-- **A batch moves forward only**: in every run without the three steps, what is completed or
cancelled stays so, and a batch is completed only when all of its deliveries are `sent`. -/
theorem status_forward {batchSize : ℕ} {s s₁ s₂ : System} {before after : List Action}
    (hfresh : s.Fresh) (hhonest : ∀ id, (s.batches id).Honest)
    (hbefore : Allowed (step batchSize) forwardOnly.Meets s before)
    (hrun : runFrom (step batchSize) s before = some s₁)
    (hafter : Allowed (step batchSize) forwardOnly.Meets s₁ after)
    (hrun' : runFrom (step batchSize) s₁ after = some s₂) (id : ℕ) :
    ((s₁.batches id).IsTerminal → (s₂.batches id).status = (s₁.batches id).status) ∧
      (s₂.batches id).Honest := by
  have hkept := honestCompletion_kept batchSize
  have hkeeps : s₁.Keeps honestCompletion :=
    hkept.run (.of_fresh hfresh hhonest) hbefore hrun
  refine ⟨fun hterminal => ?_, ?_⟩
  · have hstays : ∀ m a m', (System.Keeps m honestCompletion ∧
        (m.batches id).status = (s₁.batches id).status) → forwardOnly.Meets m a →
        step batchSize m a = some m' →
        m'.Keeps honestCompletion ∧ (m'.batches id).status = (s₁.batches id).status := by
      rintro m a m' ⟨hm, heq⟩ hc hstep
      refine ⟨hm.step hkept hc hstep, ?_⟩
      rw [status_step hm hc hstep (by rw [BatchState.IsTerminal, heq]; exact hterminal), heq]
    exact (invariant_of_allowed hstays ⟨hkeeps, rfl⟩ hafter hrun').2
  · obtain ⟨pc, hreached⟩ := (hkept.run hkeeps hafter hrun').reached id
    cases pc with
    | none => exact hreached
    | some pc => exact hreached.1

/-- A batch is sent to one user, and is completed. -/
def completedRun : List Action := .create 0 [7] none :: List.replicate 19 (.move 0 0 .returns)

theorem status_forward_completedRun :
    ∃ s₁ s₂, runFrom (step 100) System.initial completedRun = some s₁ ∧
      runFrom (step 100) s₁ [.cancel 0 1, .move 0 0 .returns] = some s₂ ∧
      (s₁.batches 1).IsTerminal ∧ (s₂.batches 1).status = (s₁.batches 1).status ∧
      (s₂.batches 1).Honest := by
  have hstatus : ((runFrom (step 100) System.initial completedRun).bind fun s₁ =>
      (runFrom (step 100) s₁ [.cancel 0 1, .move 0 0 .returns]).map fun _ =>
        ((s₁.batches 1).status, decide (Allowed (step 100) forwardOnly.Meets s₁
          [.cancel 0 1, .move 0 0 .returns]))) =
      some (some .completed, true) := by decide +kernel
  obtain ⟨s₁, hrun, hstatus⟩ := Option.bind_eq_some_iff.1 hstatus
  obtain ⟨s₂, hrun', hstatus⟩ := Option.map_eq_some_iff.1 hstatus
  obtain ⟨hcompleted, hafter⟩ := Prod.mk.inj hstatus
  have hforward := status_forward fresh_initial (fun _ => nofun) (by decide +kernel) hrun
    (of_decide_eq_true hafter) hrun' 1
  exact ⟨s₁, s₂, hrun, hrun', Or.inl hcompleted, hforward.1 (Or.inl hcompleted), hforward.2⟩

/-- The same, while `resume_batch` is called and gets as far as the lock. -/
def queuedRun : List Action :=
  .create 0 [7] none :: .resume 1 1 false :: .move 1 0 .returns ::
    List.replicate 19 (.move 0 0 .returns)

/-- The run that had queued begins: the completed batch is `sending` again. -/
theorem completed_reopened :
    ∃ s₁ s₂, runFrom (step 100) System.initial queuedRun = some s₁ ∧
      runFrom (step 100) s₁ [.move 1 0 .returns, .move 1 0 .returns] = some s₂ ∧
      (s₁.batches 1).status = some .completed ∧ (s₂.batches 1).status = some .sending := by
  have hstatus : ((runFrom (step 100) System.initial queuedRun).bind fun s₁ =>
      (runFrom (step 100) s₁ [.move 1 0 .returns, .move 1 0 .returns]).map fun s₂ =>
        ((s₁.batches 1).status, (s₂.batches 1).status)) =
      some (some .completed, some .sending) := rfl
  obtain ⟨s₁, hrun, hstatus⟩ := Option.bind_eq_some_iff.1 hstatus
  obtain ⟨s₂, hrun', hstatus⟩ := Option.map_eq_some_iff.1 hstatus
  obtain ⟨hcompleted, hsending⟩ := Prod.mk.inj hstatus
  exact ⟨s₁, s₂, hrun, hrun', hcompleted, hsending⟩

end VpnBot.Announcements
