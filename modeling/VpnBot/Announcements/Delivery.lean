import VpnBot.Announcements.Ledger
import VpnBot.System.Run

/-!
# The announcement service

`src/services/announcements.py` with a ledger: creating a batch, resuming and cancelling it, the scan
for due batches and the delivery run `_send_batch_locked`, as tasks that interleave wherever one of
them awaits.  A place names the call that a task awaits; `step` is the end of such a call, with its
effect on the tables, up to the next `await`.  A call may return, raise or be cancelled, the last two
before or after its effect.

Not modelled: the checks of the acting user, the audit entries, and what only the result shows of a
batch.  A pause of zero seconds is still a place where others may run.
-/

namespace VpnBot.Announcements

abbrev Task := ℕ

/-- `_MAX_SEND_ATTEMPTS`. -/
def maxSendAttempts : ℕ := 3

/-- The limit of `list_due_scheduled_batches`. -/
def dueLimit : ℕ := 10

/-! ### Results and checks -/

/-- `AnnouncementResult`. -/
structure AnnouncementResult where
  announcementId : ℕ
  total : ℕ
  success : ℕ
  failed : ℕ
  lastSeenId : Option ℤ
  deliveredUserIds : List ℤ
  failedUserIds : List ℤ
  skippedUserIds : List ℤ
  cancelled : Bool
  deriving DecidableEq

/-- The end of a delivery run, for `_ledger_result`: the last user, whether the batch was cancelled,
and whether the call stands inside of the `try`. -/
structure Ending where
  lastSeenId : Option ℤ
  cancelled : Bool
  inTry : Bool
  deriving DecidableEq

/-- The last two lines of `_ledger_result`. -/
def ledgerResult (id total : ℕ) (ending : Ending) (deliveries : Deliveries) : AnnouncementResult :=
  let delivered := deliveries.userIds .sent
  let failed := deliveries.userIds .failed
  let skipped := deliveries.userIds .skipped
  { announcementId := id
    total := total
    success := delivered.length
    failed := failed.length + skipped.length
    lastSeenId := ending.lastSeenId
    deliveredUserIds := delivered
    failedUserIds := failed
    skippedUserIds := skipped
    cancelled := ending.cancelled }

/-- Why an operation is refused. -/
inductive AnnouncementError
  | notFound
  | cancelled
  | alreadyCompleted
  | wrongStatus
  deriving DecidableEq

/-- The statuses in which a batch can be resumed or cancelled. -/
def isIncomplete : BatchStatus → Bool
  | .pending | .sending | .failed | .scheduled => true
  | .completed | .cancelled => false

/-- The checks of `resume_batch`. -/
def checkResume : Option AnnouncementBatch → Except AnnouncementError AnnouncementBatch
  | none => .error .notFound
  | some batch =>
    if batch.status = .cancelled then .error .cancelled
    else if batch.status = .completed || batch.completedAt.isSome then .error .alreadyCompleted
    else if !isIncomplete batch.status then .error .wrongStatus
    else .ok batch

/-- The checks of `cancel_batch`: whether there is anything to cancel. -/
def checkCancel : Option AnnouncementBatch → Except AnnouncementError Bool
  | none => .error .notFound
  | some batch =>
    if batch.status = .cancelled then .ok false
    else if batch.status = .completed || batch.completedAt.isSome then .error .alreadyCompleted
    else if !isIncomplete batch.status then .error .wrongStatus
    else .ok true

/-! ### The delivery run -/

/-- How an awaited call ends. -/
inductive Reply
  | returns
  /-- The eligibility query finds no row. -/
  | ineligible
  /-- `TelegramRetryAfter`. -/
  | retryAfter
  /-- An exception, before or after the effect of the call. -/
  | raises (applied : Bool)
  /-- The task is cancelled, before or after the effect of the call. -/
  | cancels (applied : Bool)
  deriving DecidableEq

/-- The call that `_send_batch_locked` awaits.  `userId` is the delivery at hand and `rest` what is
left of the page. -/
inductive SendPc
  | setSending
  | firstCheck
  | pageCheck (lastSeenId : ℤ)
  | page (lastSeenId : ℤ)
  | deliveryCheck (lastSeenId userId : ℤ) (rest : List ℤ)
  | eligibility (userId : ℤ) (rest : List ℤ)
  | copying (userId : ℤ) (rest : List ℤ) (attempt : ℕ)
  | marking (userId : ℤ) (rest : List ℤ) (status : DeliveryStatus)
  | pausing (userId : ℤ) (rest : List ℤ)
  | setFailed
  | refreshing (ending : Ending)
  | readingBatch (ending : Ending)
  | readingGroups (ending : Ending) (total : ℕ)
  | finishing (result : AnnouncementResult)
  | finalRefresh (result : AnnouncementResult)
  | auditing (result : AnnouncementResult)
  deriving DecidableEq

namespace SendPc

/-- The call stands inside of the `try`. -/
def inTry : SendPc → Bool
  | pageCheck _ | page _ | deliveryCheck _ _ _ | eligibility _ _ | copying _ _ _ | marking _ _ _
  | pausing _ _ => true
  | refreshing ending | readingBatch ending | readingGroups ending _ => ending.inTry
  | setSending | firstCheck | setFailed | finishing _ | finalRefresh _ | auditing _ => false

/-- What the call changes. -/
def effect (now : ℕ) (b : BatchState) : SendPc → BatchState
  | setSending => b.setBatchStatus .sending now false
  | copying userId _ _ => b.addCopy userId
  | marking userId _ status => b.markDelivery userId status
  | setFailed => b.setBatchStatus .failed now false
  | refreshing _ | finalRefresh _ => b.refreshBatchCounts
  | finishing result =>
    let completed := result.failed = 0
    b.setBatchStatus (if completed then .completed else .failed) now completed
  | firstCheck | pageCheck _ | page _ | deliveryCheck _ _ _ | eligibility _ _ | pausing _ _
  | readingBatch _ | readingGroups _ _ | auditing _ => b

/-- Where an exception of the call leads: to the handler or out of the run. -/
def raised (pc : SendPc) : Option SendPc := if pc.inTry then some setFailed else none

/-- The start of the loop body, or the next page when the page is done. -/
def nextDelivery (lastSeenId : ℤ) : List ℤ → SendPc
  | [] => pageCheck lastSeenId
  | userId :: rest => deliveryCheck lastSeenId userId rest

/-- The `_ledger_result` of a cancelled run inside of the loop. -/
def stopped (lastSeenId : ℤ) : SendPc :=
  refreshing ⟨if lastSeenId = 0 then none else some lastSeenId, true, true⟩

/-- Where the run of a batch goes when the call has returned what stands in the tables; `none` is the
end. -/
def next (batchSize id : ℕ) (retryFailed : Bool) (b : BatchState) : SendPc → Option SendPc
  | setSending => some firstCheck
  | firstCheck =>
    if b.status = some .cancelled then some (refreshing ⟨none, true, false⟩)
    else some (pageCheck 0)
  | pageCheck lastSeenId =>
    if b.status = some .cancelled then some (stopped lastSeenId) else some (page lastSeenId)
  | page lastSeenId =>
    match b.deliveries.listPending (max batchSize 1) lastSeenId retryFailed with
    | [] => some (refreshing ⟨some lastSeenId, false, false⟩)
    | userId :: rest => some (deliveryCheck lastSeenId userId rest)
  | deliveryCheck lastSeenId userId rest =>
    if b.status = some .cancelled then some (stopped lastSeenId)
    else if userId ≤ 0 then some (marking userId rest .skipped)
    else some (eligibility userId rest)
  | eligibility userId rest => some (copying userId rest 1)
  | copying userId rest _ => some (marking userId rest .sent)
  | marking userId rest status =>
    if status = .skipped then some (nextDelivery userId rest) else some (pausing userId rest)
  | pausing userId rest => some (nextDelivery userId rest)
  | setFailed => none
  | refreshing ending => some (readingBatch ending)
  | readingBatch ending =>
    match b.batch with
    | none => raised (readingBatch ending)
    | some batch => some (readingGroups ending batch.totalCount)
  | readingGroups ending total =>
    if ending.cancelled then none
    else some (finishing (ledgerResult id total ending b.deliveries))
  | finishing result => some (finalRefresh result)
  | finalRefresh result => some (auditing result)
  | auditing _ => none

/-- The end of the call that a run of a batch awaits: where the run goes and what there is then. -/
def turn (batchSize id : ℕ) (retryFailed : Bool) (now : ℕ) (b : BatchState) (pc : SendPc) :
    Reply → Option (Option SendPc × BatchState)
  | .returns => some (pc.next batchSize id retryFailed b, pc.effect now b)
  | .ineligible =>
    match pc with
    | eligibility userId rest => some (some (marking userId rest .skipped), b)
    | _ => none
  | .retryAfter =>
    match pc with
    | copying userId rest attempt =>
      if attempt < maxSendAttempts then some (some (copying userId rest (attempt + 1)), b)
      else some (some (marking userId rest .failed), b)
    | _ => none
  | .raises applied =>
    match pc with
    | copying userId rest _ => some (some (marking userId rest .failed), b)
    | _ => some (pc.raised, if applied then pc.effect now b else b)
  | .cancels applied => some (none, if applied then pc.effect now b else b)

end SendPc

/-! ### Tasks -/

/-- The call that a task awaits. -/
inductive Place
  | idle
  /-- `get_batch` in `resume_batch`. -/
  | resumeRead (id : ℕ) (retryFailed : Bool)
  /-- `get_batch`, `mark_cancelled` and the second `get_batch` in `cancel_batch`. -/
  | cancelRead (id : ℕ)
  | cancelWrite (id : ℕ)
  | cancelReread (id : ℕ)
  /-- The lock of the batch in `_send_batch`. -/
  | wantLock (id : ℕ) (retryFailed : Bool)
  | sending (id : ℕ) (retryFailed : Bool) (pc : SendPc)
  deriving DecidableEq

/-- A task, and the due batches that its scan has still to send. -/
structure TaskState where
  place : Place
  due : List ℕ

namespace TaskState

/-- A task that does nothing. -/
def idle : TaskState := ⟨.idle, []⟩

/-- After a batch: the next due one, if the task is a scan. -/
def nextDue : List ℕ → TaskState
  | [] => idle
  | id :: due => ⟨.wantLock id false, due⟩

end TaskState

/-- The tables, the locks of the batches, and the tasks. -/
structure System where
  batches : ℕ → BatchState
  nextId : ℕ
  lock : ℕ → Option Task
  tasks : Task → TaskState

namespace System

def setTask (s : System) (t : Task) (state : TaskState) : System :=
  { s with tasks := Function.update s.tasks t state }

def setBatch (s : System) (id : ℕ) (b : BatchState) : System :=
  { s with batches := Function.update s.batches id b }

def setLock (s : System) (id : ℕ) (owner : Option Task) : System :=
  { s with lock := Function.update s.lock id owner }

/-- A task that was in a delivery run: it goes on in the run, or has released the lock and sends the
next due batch; a task that was cancelled does nothing more. -/
def afterTurn (id : ℕ) (retryFailed : Bool) (due : List ℕ) (reply : Reply) :
    Option SendPc → TaskState
  | some pc => ⟨.sending id retryFailed pc, due⟩
  | none =>
    match reply with
    | .cancels _ => TaskState.idle
    | _ => TaskState.nextDue due

/-- The end of a call of a delivery run. -/
def sendStep (batchSize : ℕ) (s : System) (t : Task) (id : ℕ) (retryFailed : Bool) (pc : SendPc)
    (now : ℕ) (reply : Reply) : Option System :=
  (pc.turn batchSize id retryFailed now (s.batches id) reply).map fun (pc', b) =>
    ((s.setBatch id b).setLock id (if pc'.isSome then s.lock id else none)).setTask t
      (afterTurn id retryFailed (s.tasks t).due reply pc')

/-- The effect of `mark_cancelled`. -/
def cancelBatch (s : System) (id now : ℕ) : System :=
  s.setBatch id ((s.batches id).markCancelled now)

/-- The end of the call that a task awaits. -/
def move (batchSize : ℕ) (s : System) (t : Task) (now : ℕ) (reply : Reply) : Option System :=
  match (s.tasks t).place with
  | .idle => none
  | .resumeRead id retryFailed =>
    match reply with
    | .returns =>
      match checkResume (s.batches id).batch with
      | .ok _ => some (s.setTask t ⟨.wantLock id retryFailed, []⟩)
      | .error _ => some (s.setTask t TaskState.idle)
    | .raises _ | .cancels _ => some (s.setTask t TaskState.idle)
    | _ => none
  | .cancelRead id =>
    match reply with
    | .returns =>
      match checkCancel (s.batches id).batch with
      | .ok true => some (s.setTask t ⟨.cancelWrite id, []⟩)
      | _ => some (s.setTask t TaskState.idle)
    | .raises _ | .cancels _ => some (s.setTask t TaskState.idle)
    | _ => none
  | .cancelWrite id =>
    match reply with
    | .returns => some ((s.cancelBatch id now).setTask t ⟨.cancelReread id, []⟩)
    | .raises applied | .cancels applied =>
      some ((if applied then s.cancelBatch id now else s).setTask t TaskState.idle)
    | _ => none
  | .cancelReread _ =>
    match reply with
    | .returns | .raises _ | .cancels _ => some (s.setTask t TaskState.idle)
    | _ => none
  | .wantLock id retryFailed =>
    match reply with
    | .returns =>
      match s.lock id with
      | none =>
        some ((s.setLock id (some t)).setTask t
          ⟨.sending id retryFailed .setSending, (s.tasks t).due⟩)
      | some _ => none
    | .cancels _ => some (s.setTask t TaskState.idle)
    | _ => none
  | .sending id retryFailed pc => s.sendStep batchSize t id retryFailed pc now reply

end System

/-- What happens next. -/
inductive Action
  /-- `send_to_all` or `schedule_to_all` has its batch. -/
  | create (t : Task) (recipientIds : List ℤ) (scheduledAt : Option ℕ)
  /-- `resume_batch` is called. -/
  | resume (t : Task) (id : ℕ) (retryFailed : Bool)
  /-- `check_and_send_due` has its list. -/
  | scan (t : Task) (now : ℕ)
  /-- `cancel_batch` is called. -/
  | cancel (t : Task) (id : ℕ)
  /-- The call that a task awaits ends. -/
  | move (t : Task) (now : ℕ) (reply : Reply)
  /-- The process dies and is started again. -/
  | restart

/-- One step; a new operation is begun by a task that is idle. -/
def step (batchSize : ℕ) (s : System) : Action → Option System
  | .create t recipientIds scheduledAt =>
    if (s.tasks t).place = .idle then
      let created := { s with
        batches := Function.update s.batches s.nextId
          ((s.batches s.nextId).createBatch recipientIds scheduledAt)
        nextId := s.nextId + 1 }
      match scheduledAt with
      | none => some (created.setTask t ⟨.resumeRead s.nextId false, []⟩)
      | some _ => some created
    else none
  | .resume t id retryFailed =>
    if (s.tasks t).place = .idle then some (s.setTask t ⟨.resumeRead id retryFailed, []⟩) else none
  | .scan t now =>
    if (s.tasks t).place = .idle then
      some (s.setTask t
        (TaskState.nextDue (listDueScheduledBatches s.batches s.nextId now dueLimit)))
    else none
  | .cancel t id =>
    if (s.tasks t).place = .idle then some (s.setTask t ⟨.cancelRead id, []⟩) else none
  | .move t now reply => s.move batchSize t now reply
  | .restart => some { s with lock := fun _ => none, tasks := fun _ => TaskState.idle }

/-- A process that has just been started: every task is idle and every lock is free.  The ids in use
are below the next one. -/
structure System.Fresh (s : System) : Prop where
  tasks : ∀ t, s.tasks t = TaskState.idle
  lock : ∀ id, s.lock id = none
  ids : ∀ id, s.nextId ≤ id → (s.batches id).batch = none

/-- A new database and a new process. -/
def System.initial : System where
  batches _ := ⟨none, Deliveries.empty, fun _ => 0⟩
  nextId := 1
  lock _ := none
  tasks _ := TaskState.idle

theorem fresh_initial : System.initial.Fresh := ⟨fun _ => rfl, fun _ => rfl, fun _ _ => rfl⟩

end VpnBot.Announcements
