import Mathlib.Data.List.Sort

/-!
# The ledger of announcements

`src/repositories/announcements.py`: the tables of batches and of their deliveries, batch by batch,
and the statements on them.  The deliveries of a batch stand in the order of their primary key, so a user
has one row at most; this order is a field of `Deliveries`.  Times are numbers; the columns that no
statement here reads (`created_at`, `updated_at`, `error_text`, the actor and the message) are left
out.
-/

namespace VpnBot.Announcements

inductive BatchStatus
  | scheduled
  | pending
  | sending
  | completed
  | failed
  | cancelled
  deriving DecidableEq

inductive DeliveryStatus
  | pending
  | sent
  | failed
  | skipped
  deriving DecidableEq

namespace DeliveryStatus

/-- `mark_delivery` leaves only these two. -/
def isOpen : DeliveryStatus → Bool
  | .pending | .failed => true
  | .sent | .skipped => false

end DeliveryStatus

/-- A row of `announcement_batches`. -/
structure AnnouncementBatch where
  status : BatchStatus
  totalCount : ℕ
  successCount : ℕ
  failedCount : ℕ
  skippedCount : ℕ
  completedAt : Option ℕ
  scheduledAt : Option ℕ
  deriving DecidableEq

/-- A row of `announcement_deliveries`. -/
structure AnnouncementDelivery where
  userId : ℤ
  status : DeliveryStatus
  deriving DecidableEq

/-! ### The deliveries of a batch -/

/-- The rows of one batch, in the order of the user ids. -/
structure Deliveries where
  rows : List AnnouncementDelivery
  ordered : rows.Pairwise fun row row' => row.userId < row'.userId

/-- `INSERT OR IGNORE` of a pending row. -/
def insertRow (userId : ℤ) : List AnnouncementDelivery → List AnnouncementDelivery
  | [] => [⟨userId, .pending⟩]
  | row :: rows =>
    if userId < row.userId then ⟨userId, .pending⟩ :: row :: rows
    else if userId = row.userId then row :: rows
    else row :: insertRow userId rows

theorem mem_insertRow {userId : ℤ} {rows : List AnnouncementDelivery} {row : AnnouncementDelivery}
    (h : row ∈ insertRow userId rows) : row = ⟨userId, .pending⟩ ∨ row ∈ rows := by
  induction rows with
  | nil => exact Or.inl (List.mem_singleton.1 h)
  | cons head rows ih =>
    rw [insertRow] at h
    split_ifs at h with hlt heq
    · exact List.mem_cons.1 h
    · exact Or.inr h
    · rcases List.mem_cons.1 h with rfl | h
      · exact Or.inr List.mem_cons_self
      · exact (ih h).imp_right (List.mem_cons_of_mem _)

theorem mem_insertRow_of_mem {userId : ℤ} {rows : List AnnouncementDelivery}
    {row : AnnouncementDelivery} (h : row ∈ rows) : row ∈ insertRow userId rows := by
  induction rows with
  | nil => cases h
  | cons head rows ih =>
    rw [insertRow]
    split_ifs with hlt heq
    · exact List.mem_cons_of_mem _ h
    · exact h
    · rcases List.mem_cons.1 h with rfl | h
      · exact List.mem_cons_self
      · exact List.mem_cons_of_mem _ (ih h)

theorem insertRow_ordered {userId : ℤ} {rows : List AnnouncementDelivery}
    (h : rows.Pairwise fun row row' => row.userId < row'.userId) :
    (insertRow userId rows).Pairwise fun row row' => row.userId < row'.userId := by
  induction rows with
  | nil => exact List.pairwise_singleton _ _
  | cons head rows ih =>
    rw [insertRow]
    split_ifs with hlt heq
    · refine List.pairwise_cons.2 ⟨fun row hrow => ?_, h⟩
      rcases List.mem_cons.1 hrow with rfl | hrow
      · exact hlt
      · exact hlt.trans ((List.pairwise_cons.1 h).1 row hrow)
    · exact h
    · obtain ⟨hhead, hrows⟩ := List.pairwise_cons.1 h
      refine List.pairwise_cons.2 ⟨fun row hrow => ?_, ih hrows⟩
      rcases mem_insertRow hrow with rfl | hrow
      · exact lt_of_le_of_ne (not_lt.1 hlt) (Ne.symm heq)
      · exact hhead row hrow

namespace Deliveries

/-- No row. -/
def empty : Deliveries := ⟨[], List.Pairwise.nil⟩

/-- `INSERT OR IGNORE` of the recipients of a batch. -/
def insertOrIgnore (userId : ℤ) (deliveries : Deliveries) : Deliveries :=
  ⟨insertRow userId deliveries.rows, insertRow_ordered deliveries.ordered⟩

/-- `INSERT OR IGNORE` of all recipients. -/
def insertAll (recipientIds : List ℤ) (deliveries : Deliveries) : Deliveries :=
  recipientIds.foldl (fun d userId => d.insertOrIgnore userId) deliveries

/-- A row of the user that is still pending or failed gets the status. -/
def markRow (userId : ℤ) (status : DeliveryStatus) (row : AnnouncementDelivery) :
    AnnouncementDelivery :=
  if row.userId = userId && row.status.isOpen then { row with status := status } else row

/-- The `UPDATE` of `mark_delivery`. -/
def mark (userId : ℤ) (status : DeliveryStatus) (deliveries : Deliveries) : Deliveries where
  rows := deliveries.rows.map (markRow userId status)
  ordered := by
    refine List.pairwise_map.2 (deliveries.ordered.imp fun {row row'} h => ?_)
    have hid : ∀ row, (markRow userId status row).userId = row.userId := by
      intro row
      rw [markRow]
      split_ifs <;> rfl
    rw [hid, hid]
    exact h

/-- The rows that `list_pending_deliveries` asks for. -/
def listed (afterUserId : ℤ) (retryFailed : Bool) (row : AnnouncementDelivery) : Bool :=
  (row.status = .pending || (retryFailed && row.status = .failed)) && afterUserId < row.userId

/-- `list_pending_deliveries`: the users of one page. -/
def listPending (limit : ℕ) (afterUserId : ℤ) (retryFailed : Bool) (deliveries : Deliveries) :
    List ℤ :=
  ((deliveries.rows.filter (listed afterUserId retryFailed)).take (min limit 500)).map
    AnnouncementDelivery.userId

/-- The users whose delivery has the status (`delivery_user_ids_grouped`). -/
def userIds (status : DeliveryStatus) (deliveries : Deliveries) : List ℤ :=
  (deliveries.rows.filter fun row => row.status = status).map AnnouncementDelivery.userId

/-! ### Lemmas about the rows -/

variable {deliveries : Deliveries} {row row' : AnnouncementDelivery} {userId : ℤ}
  {status : DeliveryStatus}

theorem eq_of_userId_eq (h : row ∈ deliveries.rows) (h' : row' ∈ deliveries.rows)
    (heq : row.userId = row'.userId) : row = row' := by
  have hnodup : (deliveries.rows.map AnnouncementDelivery.userId).Nodup :=
    List.pairwise_map.2 (deliveries.ordered.imp fun h => h.ne)
  exact List.inj_on_of_nodup_map hnodup h h' heq

theorem mem_insertAll_of_mem {recipientIds : List ℤ} (h : row ∈ deliveries.rows) :
    row ∈ (deliveries.insertAll recipientIds).rows := by
  induction recipientIds generalizing deliveries with
  | nil => exact h
  | cons userId recipientIds ih => exact ih (mem_insertRow_of_mem h)

theorem mem_mark (h : row' ∈ (deliveries.mark userId status).rows) :
    ∃ row ∈ deliveries.rows, row' = markRow userId status row := by
  obtain ⟨row, hrow, rfl⟩ := List.mem_map.1 h
  exact ⟨row, hrow, rfl⟩

theorem mem_mark_of_ne (h : row ∈ deliveries.rows) (hne : row.userId ≠ userId) :
    row ∈ (deliveries.mark userId status).rows :=
  List.mem_map.2 ⟨row, h, if_neg (by simp [hne])⟩

theorem mem_mark_of_not_open (h : row ∈ deliveries.rows) (hstatus : row.status.isOpen = false) :
    row ∈ (deliveries.mark userId status).rows :=
  List.mem_map.2 ⟨row, h, if_neg (by simp [hstatus])⟩

theorem mem_mark_of_open (h : row ∈ deliveries.rows) (hid : row.userId = userId)
    (hopen : row.status.isOpen = true) : ⟨userId, status⟩ ∈ (deliveries.mark userId status).rows := by
  refine List.mem_map.2 ⟨row, h, ?_⟩
  rw [markRow, if_pos (by simp [hid, hopen]), hid]

theorem not_pending_of_mark (h : row ∈ (deliveries.mark userId status).rows)
    (hstatus : status ≠ .pending) (hpending : row.status = .pending) :
    row.userId ≠ userId ∧ row ∈ deliveries.rows := by
  obtain ⟨before, hbefore, rfl⟩ := mem_mark h
  rw [markRow] at hpending ⊢
  split_ifs at hpending ⊢ with hcond
  · exact absurd hpending hstatus
  · refine ⟨fun hid => hcond ?_, hbefore⟩
    simp [hid, hpending, DeliveryStatus.isOpen]

theorem listPending_ordered (limit : ℕ) (after : ℤ) (retryFailed : Bool) :
    (deliveries.listPending limit after retryFailed).Pairwise (· < ·) :=
  List.pairwise_map.2
    ((deliveries.ordered.sublist List.filter_sublist).sublist (List.take_sublist _ _))

theorem mem_listPending {limit : ℕ} {after : ℤ} {retryFailed : Bool}
    (h : userId ∈ deliveries.listPending limit after retryFailed) :
    ∃ row ∈ deliveries.rows, row.userId = userId ∧ row.status.isOpen = true ∧ after < userId := by
  obtain ⟨row, hrow, rfl⟩ := List.mem_map.1 h
  obtain ⟨hrow, hlisted⟩ := List.mem_filter.1 (List.mem_of_mem_take hrow)
  rw [listed, Bool.and_eq_true, Bool.or_eq_true, Bool.and_eq_true] at hlisted
  refine ⟨row, hrow, rfl, ?_, of_decide_eq_true hlisted.2⟩
  rcases hlisted.1 with hs | ⟨-, hs⟩ <;> rw [of_decide_eq_true hs] <;> rfl

/-- A pending row behind the start of the page is on the page or behind all of it. -/
theorem pending_of_listPending {limit : ℕ} {after : ℤ} {retryFailed : Bool}
    (hrow : row ∈ deliveries.rows) (hpending : row.status = .pending) (hafter : after < row.userId) :
    row.userId ∈ deliveries.listPending limit after retryFailed ∨
      ∀ userId ∈ deliveries.listPending limit after retryFailed, userId < row.userId := by
  have hmem : row ∈ deliveries.rows.filter (listed after retryFailed) := by
    refine List.mem_filter.2 ⟨hrow, ?_⟩
    simp [listed, hpending, hafter]
  have hordered := deliveries.ordered.sublist
    (List.filter_sublist (p := listed after retryFailed))
  rw [← List.take_append_drop (min limit 500) (deliveries.rows.filter (listed after retryFailed))]
    at hmem hordered
  rcases List.mem_append.1 hmem with hpage | hbehind
  · exact Or.inl (List.mem_map_of_mem hpage)
  · refine Or.inr fun userId hpage => ?_
    obtain ⟨first, hfirst, rfl⟩ := List.mem_map.1 hpage
    exact (List.pairwise_append.1 hordered).2.2 first hfirst row hbehind

/-- A page with room for a row is empty only when nothing is pending behind its start. -/
theorem not_pending_of_listPending_eq_nil {limit : ℕ} {after : ℤ} {retryFailed : Bool}
    (hlimit : 0 < limit) (hnil : deliveries.listPending limit after retryFailed = [])
    (hrow : row ∈ deliveries.rows) (hafter : after < row.userId) : row.status ≠ .pending := by
  intro hpending
  have hmem : row ∈ deliveries.rows.filter (listed after retryFailed) := by
    refine List.mem_filter.2 ⟨hrow, ?_⟩
    simp [listed, hpending, hafter]
  rcases List.take_eq_nil_iff.1 (List.map_eq_nil_iff.1 hnil) with hzero | hempty
  · omega
  · rw [hempty] at hmem
    cases hmem

theorem userIds_eq_nil_iff : deliveries.userIds status = [] ↔
    ∀ row ∈ deliveries.rows, row.status ≠ status := by
  rw [userIds, List.map_eq_nil_iff, List.filter_eq_nil_iff]
  simp

end Deliveries

/-! ### The rows of a batch -/

/-- What the tables hold of one batch id, and the copies that its recipients have got. -/
structure BatchState where
  batch : Option AnnouncementBatch
  deliveries : Deliveries
  copies : ℤ → ℕ

namespace BatchState

def status (b : BatchState) : Option BatchStatus := b.batch.map AnnouncementBatch.status

/-- An `UPDATE` of the row of the batch. -/
def updateBatch (b : BatchState) (f : AnnouncementBatch → AnnouncementBatch) : BatchState :=
  { b with batch := b.batch.map f }

/-- `create_batch`. -/
def createBatch (b : BatchState) (recipientIds : List ℤ) (scheduledAt : Option ℕ) : BatchState where
  batch := some
    { status := if scheduledAt.isSome then .scheduled else .pending
      totalCount := recipientIds.length
      successCount := 0
      failedCount := 0
      skippedCount := 0
      completedAt := none
      scheduledAt := scheduledAt }
  deliveries := b.deliveries.insertAll recipientIds
  copies := b.copies

/-- `set_batch_status`. -/
def setBatchStatus (b : BatchState) (status : BatchStatus) (now : ℕ) (completed : Bool) :
    BatchState :=
  b.updateBatch fun batch =>
    if batch.status = .cancelled then batch
    else { batch with
      status := status
      completedAt := if completed then some now else batch.completedAt }

/-- `mark_cancelled`. -/
def markCancelled (b : BatchState) (now : ℕ) : BatchState :=
  b.updateBatch fun batch =>
    { batch with status := .cancelled, completedAt := batch.completedAt.or (some now) }

/-- `mark_delivery`; a row that is not pending or failed stays (`InvalidTransition`, which
`_mark_delivery_safe` takes as handled). -/
def markDelivery (b : BatchState) (userId : ℤ) (status : DeliveryStatus) : BatchState :=
  { b with deliveries := b.deliveries.mark userId status }

/-- `refresh_batch_counts`. -/
def refreshBatchCounts (b : BatchState) : BatchState :=
  let count status := (b.deliveries.userIds status).length
  b.updateBatch fun batch =>
    { batch with
      successCount := count .sent, failedCount := count .failed, skippedCount := count .skipped }

/-- The user gets a copy. -/
def addCopy (b : BatchState) (userId : ℤ) : BatchState :=
  { b with copies := Function.update b.copies userId (b.copies userId + 1) }

end BatchState

/-- `list_due_scheduled_batches`: the ids, earliest first; `nextId` is the next value of the
AUTOINCREMENT column. -/
def listDueScheduledBatches (batches : ℕ → BatchState) (nextId now limit : ℕ) : List ℕ :=
  let scheduledAt (id : ℕ) : Option ℕ := (batches id).batch.bind AnnouncementBatch.scheduledAt
  let due := (List.range nextId).filter fun id =>
    (batches id).status = some .scheduled && (scheduledAt id).any (· ≤ now)
  (due.insertionSort fun id id' => (scheduledAt id).getD 0 ≤ (scheduledAt id').getD 0).take
    (min limit 500)

theorem lt_of_mem_listDueScheduledBatches {batches : ℕ → BatchState} {nextId now limit id : ℕ}
    (h : id ∈ listDueScheduledBatches batches nextId now limit) : id < nextId :=
  List.mem_range.1 (List.mem_filter.1 ((List.mem_insertionSort _).1 (List.mem_of_mem_take h))).1

end VpnBot.Announcements
