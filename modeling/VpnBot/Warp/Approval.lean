import VpnBot.Warp.FeedRuns

/-!
# An approval

`apply_pending` of `src/services/warp_split_feeds.py`, one step for each place where it waits, between
what others do at the same time: statements on the feed tables, candidates that runs queue and drop, the
lock of the manager and the list file.

The call keeps the pending row that it reads and computes the list twice, for the first check of the hash
and again under the lock.  `handed` are the contents that it gives to the apply helper: the list of the
approval and, when the helper fails on it, what stood in the file before.  An `ApprovalPast` has them with
what the call read: the pending row, the last list that it merged, and the file under the lock.
-/

namespace VpnBot.Warp

open Py Sys FeedTables

/-! ### The call and its surroundings -/

/-- How the call ends: it returns, it refuses, or a statement or the runner of a helper raises. -/
inductive ApprovalResult
  | returned (outcome : ApplyOutcome)
  | refused (e : FeedError)
  | raised
  deriving DecidableEq

/-- Where the call waits, with its local variables. -/
inductive ApprovalPc
  | reading
  | planSources (row : PendingCandidate)
  | planPrefixes (row : PendingCandidate) (sources : List SplitSource)
  | planExclusions (row : PendingCandidate) (sources : List SplitSource) (stored : Text → List Text)
  | locking (row : PendingCandidate)
  | applySources (row : PendingCandidate)
  | applyPrefixes (row : PendingCandidate) (sources : List SplitSource)
  | applyExclusions (row : PendingCandidate) (sources : List SplitSource) (stored : Text → List Text)
  | applyChecking (prefixes : List Text) (previous : Option Text)
  | applying (prefixes : List Text) (previous : Option Text)
  | restoring (previous : Option Text) (e : SplitError)
  | captureFile (outcome : ApplyOutcome)
  | capturePrefixes (outcome : ApplyOutcome) (current : List Text)
  | setBaselines (outcome : ApplyOutcome) (baselines : Dict Text Coverage)
  | clearPending (outcome : ApplyOutcome)
  | resetHash (outcome : ApplyOutcome)
  | resetCount (outcome : ApplyOutcome)
  | done (result : ApprovalResult)

/-- The call holds the lock of the manager. -/
def ApprovalPc.locked : ApprovalPc → Bool
  | .applySources _ | .applyPrefixes _ _ | .applyExclusions _ _ _ | .applyChecking _ _
  | .applying _ _ | .restoring _ _ => true
  | _ => false

/-- A content that the call gives to the apply helper. -/
inductive Handed
  | candidate (prefixes : List Text)
  | previous (text : Text)
  deriving DecidableEq

/-- The list of a content. -/
def Handed.prefixes : Handed → List Text
  | .candidate prefixes => prefixes
  | .previous text => readList (some text)

/-- What the call has read and handed over so far, the last content first. -/
structure ApprovalPast where
  row : Option (Option PendingCandidate)
  merged : Option (List Text)
  found : Option (Option Text)
  handed : List Handed

/-- The tables, the pending row, the list file, the manager and the call; `busy` says that another
operation holds the lock. -/
structure ApprovalState where
  tables : FeedTables
  pending : Option PendingCandidate
  file : Option Text
  endpointIp : Option ℕ
  busy : Bool
  pc : ApprovalPc
  past : ApprovalPast

/-- What happens next: the call goes on to its next wait, or it raises where it waits; or another
operation executes a statement, queues or drops a candidate, takes or gives back the lock, or writes the
list file. -/
inductive ApprovalAction
  | next (host : Host)
  | raises
  | other (statement : Statement)
  | otherQueue (networks : List IPv4Network)
  | otherClear
  | otherLock
  | otherUnlock
  | otherFile (file : Option Text)

/-- The candidate that `_queue` stores: the prefixes of a plan with their hash. -/
def queuedRow (networks : List IPv4Network) : PendingCandidate :=
  ⟨listHash (networks.map IPv4.text), networks.map IPv4.text⟩

namespace ApprovalState

/-- The call waits at another place. -/
def goto (pc : ApprovalPc) (s : ApprovalState) : ApprovalState := { s with pc := pc }

/-- The call ends; a lock that it holds is free again. -/
def refuse (e : FeedError) (s : ApprovalState) : ApprovalState := s.goto (.done (.refused e))

end ApprovalState

/-! ### The steps -/

/-- The call goes on to its next wait. -/
def advanceApproval (service : FeedService) (host : Host) (s : ApprovalState) : Option ApprovalState :=
  match s.pc with
  | .reading =>
    let s := { s with past.row := some s.pending }
    match s.pending with
    | none => some (s.refuse .noPending)
    | some row => some (s.goto (.planSources row))
  | .planSources row => some (s.goto (.planPrefixes row s.tables.sources))
  | .planPrefixes row sources => some (s.goto (.planExclusions row sources s.tables.prefixesFor))
  | .planExclusions row sources stored =>
    match planOf sources stored (stored MANUAL_ORIGIN) s.tables.exclusions (readList s.file) with
    | .error e => some (s.refuse (.split e))
    | .ok plan =>
      let s := { s with past.merged := some plan.prefixes }
      if listHash plan.prefixes ≠ row.listHash then some (s.refuse .stale)
      else some (s.goto (.locking row))
  | .locking row => if s.busy then none else some (s.goto (.applySources row))
  | .applySources row => some (s.goto (.applyPrefixes row s.tables.sources))
  | .applyPrefixes row sources => some (s.goto (.applyExclusions row sources s.tables.prefixesFor))
  | .applyExclusions row sources stored =>
    match planOf sources stored (stored MANUAL_ORIGIN) s.tables.exclusions (readList s.file) with
    | .error e => some (s.refuse (.split e))
    | .ok plan =>
      let s := { s with past.merged := some plan.prefixes }
      if listHash plan.prefixes ≠ row.listHash then some (s.refuse .stale)
      else if plan.prefixes.isEmpty then some (s.refuse (.split .emptyList))
      else some ({ s with past.found := some s.file }.goto (.applyChecking plan.prefixes s.file))
  | .applyChecking prefixes previous =>
    let probed := { s with endpointIp := host.probe <|> s.endpointIp }
    match checkList service.manager (buildGuards service.manager host probed.endpointIp) prefixes with
    | .error e => some (probed.refuse (.split e))
    | .ok () =>
      if previous = some (renderList prefixes) then
        some (probed.goto (.captureFile ⟨prefixes.length, [], [], true⟩))
      else some (probed.goto (.applying prefixes previous))
  | .applying prefixes previous =>
    let run := host.applyHelper (renderList prefixes) s.file
    let s := { s with file := run.file, past.handed := .candidate prefixes :: s.past.handed }
    match run with
    | .raised _ => some (s.refuse (.split .helperRaised))
    | .exited returncode detail _ =>
      if returncode ≠ 0 then some (s.goto (.restoring previous (.helperFailed returncode detail)))
      else
        let previousEntries := readList previous
        some (s.goto (.captureFile
          { count := prefixes.length
            added := sortTexts (prefixes.dedup.filter (· ∉ previousEntries))
            removed := sortTexts (previousEntries.dedup.filter (· ∉ prefixes))
            unchanged := false }))
  | .restoring previous e =>
    match previous with
    | none => some (s.refuse (.split e))
    | some text =>
      if (strip text).isEmpty then some (s.refuse (.split e))
      else
        let s := { s with file := (host.applyHelper text s.file).file
                          past.handed := .previous text :: s.past.handed }
        some (s.refuse (.split e))
  | .captureFile outcome =>
    let current := readList s.file
    if current.isEmpty then some (s.goto (.clearPending outcome))
    else some (s.goto (.capturePrefixes outcome current))
  | .capturePrefixes outcome current =>
    some (s.goto (.setBaselines outcome (coverages s.tables current)))
  | .setBaselines outcome baselines =>
    some ({ s with tables := (Statement.setBaselines baselines).exec s.tables }.goto
      (.clearPending outcome))
  | .clearPending outcome => some ({ s with pending := none }.goto (.resetHash outcome))
  | .resetHash outcome =>
    some ({ s with tables := s.tables.setMeta STREAK_HASH_KEY [] }.goto (.resetCount outcome))
  | .resetCount outcome =>
    some ({ s with tables := s.tables.setMeta STREAK_COUNT_KEY "0".toList }.goto
      (.done (.returned outcome)))
  | .done _ => none

/-- One step of the call or of another operation. -/
def approvalStep (service : FeedService) (s : ApprovalState) : ApprovalAction → Option ApprovalState
  | .next host => advanceApproval service host s
  | .raises =>
    match s.pc with
    | .done _ => none
    | _ => some (s.goto (.done .raised))
  | .other statement => some { s with tables := statement.exec s.tables }
  | .otherQueue networks => some { s with pending := some (queuedRow networks) }
  | .otherClear => some { s with pending := none }
  | .otherLock => if s.busy || s.pc.locked then none else some { s with busy := true }
  | .otherUnlock => some { s with busy := false }
  | .otherFile file => some { s with file := file }

/-- A call about to start. -/
def approvalStart (tables : FeedTables) (pending : Option PendingCandidate) (file : Option Text)
    (endpointIp : Option ℕ) (busy : Bool) : ApprovalState :=
  ⟨tables, pending, file, endpointIp, busy, .reading, ⟨none, none, none, []⟩⟩

end VpnBot.Warp
