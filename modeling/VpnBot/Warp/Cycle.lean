import VpnBot.System.Run
import VpnBot.Warp.SplitAnalysis

/-!
# The unattended cycle

`run_cycle` of `src/services/warp_split_feeds.py`, one step for each place where it waits, between
the statements of other operations on the same tables.  `Statement` has the SQL statements of the
repository; other operations may execute any of them at any time, whether or not they hold the
lock of the manager, which only guards the list file.

The cycle first runs its own statements (adoption, reconciliation of the baseline, refresh of the
sources), then reads the tables for the plan, judges the plan, and under the lock reads the tables
again for the list it writes.  `judged` keeps the verdict that let it go on to the apply and
`written` the lists that it gave to the helper: the one of the apply, and after a failed apply the
previous list, which is put back.
-/

namespace VpnBot.Warp

open Py FeedTables

/-! ### Statements -/

/-- One SQL statement on the feed tables. -/
inductive Statement
  | insertPrefixes (origin : Text) (prefixes : List Text)
  | deleteOrigin (origin : Text)
  | deleteManual (prefixes : List Text)
  | insertExclusion (p : Text)
  | deleteExclusion (p : Text)
  | insertSource (source : SplitSource)
  | deleteSource (slug : Text)
  | detachSource (slug : Text)
  | setEnabled (slug : Text) (enabled : Bool)
  | stampSuccess (slug : Text) (stamp : ℤ)
  | setBaselines (baselines : Dict Text Coverage)
  | setMeta (key value : Text)

/-- `UPDATE warp_split_sources SET … WHERE slug = ?`. -/
def updateSource (slug : Text) (f : SplitSource → SplitSource) (tables : FeedTables) : FeedTables :=
  { tables with sources := tables.sources.map fun s => if s.slug = slug then f s else s }

/-- The tables after a statement. -/
def Statement.exec (tables : FeedTables) : Statement → FeedTables
  | .insertPrefixes origin ps => tables.insertPrefixes origin ps
  | .deleteOrigin origin => tables.deleteOrigin origin
  | .deleteManual ps => tables.removeManualPrefixes ps
  | .insertExclusion p => tables.addExclusion p
  | .deleteExclusion p => tables.removeExclusion p
  | .insertSource source => { tables with sources := tables.sources ++ [source] }
  | .deleteSource slug => { tables with sources := tables.sources.filter fun s => s.slug ≠ slug }
  | .detachSource slug => updateSource slug (fun s => { s with scopeSlug := none, enabled := false })
      tables
  | .setEnabled slug enabled => updateSource slug (fun s => { s with enabled := enabled }) tables
  | .stampSuccess slug stamp => updateSource slug (fun s => { s with lastSuccessTs := stamp }) tables
  | .setBaselines baselines => { tables with baselines := baselines }
  | .setMeta key value => tables.setMeta key value

/-! ### The cycle -/

/-- `WARP_SPLIT_FEEDS_MODE`, the mode `off` starting no cycle. -/
inductive FeedMode
  | review
  | auto
  deriving DecidableEq

structure FeedService where
  manager : SplitManager
  mode : FeedMode
  thresholds : Thresholds
  confirmStreak : ℤ

/-- How a run ends: with a decision of the journal, or with an exception. -/
inductive Decision
  | applied
  | queued
  | nochange
  | rejected
  | failed
  | raised
  deriving DecidableEq

/-- The verdict with which the cycle goes on to the apply. -/
structure Judgement where
  analysis : ChangeAnalysis
  streak : ℤ

/-- Where the cycle waits, with its local variables. -/
inductive Pc
  | preparing
  | planSources (emptyParses : List Text)
  | planPrefixes (emptyParses : List Text) (sources : List SplitSource)
  | planExclusions (emptyParses : List Text) (sources : List SplitSource)
      (stored : Text → List Text)
  | analyseSources (emptyParses : List Text) (plan : MergePlan)
  | analyseBaselines (plan : MergePlan) (states : List SourceState)
  | checking (plan : MergePlan) (analysis : ChangeAnalysis)
  | streakHash (plan : MergePlan) (analysis : ChangeAnalysis)
  | streakCount (plan : MergePlan) (analysis : ChangeAnalysis) (previous : Option Text)
  | streakSetHash (plan : MergePlan) (analysis : ChangeAnalysis) (count : ℤ)
  | streakSetCount (plan : MergePlan) (analysis : ChangeAnalysis) (count : ℤ)
  | locking
  | applySources
  | applyPrefixes (sources : List SplitSource)
  | applyExclusions (sources : List SplitSource) (stored : Text → List Text)
  | applyChecking (prefixes : List Text) (previous : Option Text)
  | applying (prefixes : List Text) (previous : Option Text)
  | restoring (previous : Option Text)
  | done (decision : Decision)

inductive ManagerLock
  | free
  | other
  | cycle
  deriving DecidableEq

/-- The tables, the list file, the manager and the cycle. -/
structure CycleState where
  tables : FeedTables
  file : Option Text
  endpointIp : Option ℕ
  lock : ManagerLock
  pc : Pc
  judged : Option Judgement
  written : List (List Text)

/-- What happens next: the cycle executes a statement of its preparation, ends the preparation
with the slugs of the feeds that parsed to nothing, or goes on to its next wait; or another
operation executes a statement, takes or gives back the lock, or writes the list file. -/
inductive CycleAction
  | prepare (statement : Statement)
  | fetched (emptyParses : List Text)
  | next (host : Host) (now : ℤ)
  | other (statement : Statement)
  | otherLock
  | otherUnlock
  | otherFile (file : Option Text)

/-- `_STREAK_HASH_KEY`. -/
def STREAK_HASH_KEY : Text := "warp_split_streak_hash".toList

/-- `_STREAK_COUNT_KEY`. -/
def STREAK_COUNT_KEY : Text := "warp_split_streak_count".toList

/-- `int(raw or 0)`, zero for a text that is no number. -/
def streakOf (raw : Option Text) : ℤ := ((raw.getD []) |> parseInt).getD 0

/-- The states of the enabled sources for the analysis. -/
def sourceStates (emptyParses : List Text) (plan : MergePlan) (now : ℤ)
    (sources : List SplitSource) : List SourceState :=
  (sources.filter SplitSource.enabled).map fun s =>
    { slug := s.slug
      mode := s.mode
      coverage := ⟨(plan.report.perSourcePrefixes.get? s.slug).getD 0,
        (plan.report.perSourceAddresses.get? s.slug).getD 0⟩
      ageSec := if s.lastSuccessTs ≤ (0 : ℤ) then none else some (now - s.lastSuccessTs)
      emptyParse := s.slug ∈ emptyParses }

namespace CycleState

/-- The cycle waits at another place. -/
def goto (pc : Pc) (s : CycleState) : CycleState := { s with pc := pc }

/-- The cycle ends, and gives the lock back if it holds it. -/
def finish (decision : Decision) (s : CycleState) : CycleState :=
  { s with pc := .done decision, lock := if s.lock = .cycle then .free else s.lock }

/-- The cycle goes on to the apply with a verdict. -/
def judge (analysis : ChangeAnalysis) (streak : ℤ) (s : CycleState) : CycleState :=
  { s with pc := .locking, judged := some ⟨analysis, streak⟩ }

end CycleState

/-- The decision when the plan of an analysis or of an apply cannot be computed: only a missing
operand is expected. -/
def planFailure (expected : Decision) : SplitError → Decision
  | .noCache _ => expected
  | _ => .raised

/-- The decision when an apply is refused: only the cap is expected. -/
def applyFailure : SplitError → Decision
  | .capExceeded _ _ => .rejected
  | _ => .raised

/-- What follows the check of the candidate. -/
def afterCheck (service : FeedService) (plan : MergePlan) (analysis : ChangeAnalysis)
    (s : CycleState) : CycleState :=
  if service.mode = .review ∨ analysis.suspicious then s.finish .queued
  else if analysis.pureAggregation then s.judge analysis 0
  else s.goto (.streakHash plan analysis)

/-- The guards after a probe of the endpoint. -/
def guardsNow (service : FeedService) (host : Host) (s : CycleState) : List Guard :=
  buildGuards service.manager host (host.probe <|> s.endpointIp)

/-- The cycle goes on to its next wait. -/
def advance (service : FeedService) (host : Host) (now : ℤ) (s : CycleState) : Option CycleState :=
  match s.pc with
  | .preparing => none
  | .planSources empty => some (s.goto (.planPrefixes empty s.tables.sources))
  | .planPrefixes empty sources =>
    some (s.goto (.planExclusions empty sources s.tables.prefixesFor))
  | .planExclusions empty sources stored =>
    match planOf sources stored (stored MANUAL_ORIGIN) s.tables.exclusions (readList s.file) with
    | .error e => some (s.finish (planFailure .failed e))
    | .ok plan => some (s.goto (.analyseSources empty plan))
  | .analyseSources empty plan =>
    some (s.goto (.analyseBaselines plan (sourceStates empty plan now s.tables.sources)))
  | .analyseBaselines plan states =>
    let analysis := analyseChange plan.current plan.prefixes states s.tables.baselines
      service.thresholds
    if analysis.identical then some (s.finish .nochange)
    else some (s.goto (.checking plan analysis))
  | .checking plan analysis =>
    let probed := { s with endpointIp := host.probe <|> s.endpointIp }
    match checkList service.manager (guardsNow service host s) plan.prefixes with
    | .error _ => some (probed.finish .rejected)
    | .ok () => some (afterCheck service plan analysis probed)
  | .streakHash plan analysis =>
    some (s.goto (.streakCount plan analysis (s.tables.getMeta STREAK_HASH_KEY)))
  | .streakCount plan analysis previous =>
    let count := streakOf (s.tables.getMeta STREAK_COUNT_KEY)
    some (s.goto (.streakSetHash plan analysis
      (if previous = some analysis.listHash then count + 1 else 1)))
  | .streakSetHash plan analysis count =>
    some ({ s with tables := s.tables.setMeta STREAK_HASH_KEY analysis.listHash }.goto
      (.streakSetCount plan analysis count))
  | .streakSetCount _ analysis count =>
    let s := { s with tables := s.tables.setMeta STREAK_COUNT_KEY (intText count) }
    if count < max 1 service.confirmStreak then some (s.finish .nochange)
    else some (s.judge analysis count)
  | .locking => if s.lock = .free then some ({ s with lock := .cycle }.goto .applySources) else none
  | .applySources => some (s.goto (.applyPrefixes s.tables.sources))
  | .applyPrefixes sources => some (s.goto (.applyExclusions sources s.tables.prefixesFor))
  | .applyExclusions sources stored =>
    match planOf sources stored (stored MANUAL_ORIGIN) s.tables.exclusions (readList s.file) with
    | .error e => some (s.finish (planFailure .rejected e))
    | .ok plan =>
      if plan.prefixes.isEmpty then some (s.finish .raised)
      else some (s.goto (.applyChecking plan.prefixes s.file))
  | .applyChecking prefixes previous =>
    let probed := { s with endpointIp := host.probe <|> s.endpointIp }
    match checkList service.manager (guardsNow service host s) prefixes with
    | .error e => some (probed.finish (applyFailure e))
    | .ok () =>
      if previous = some (renderList prefixes) then some (probed.finish .nochange)
      else some (probed.goto (.applying prefixes previous))
  | .applying prefixes previous =>
    let run := host.applyHelper (renderList prefixes) s.file
    let s := { s with file := run.file, written := s.written ++ [prefixes] }
    match run with
    | .exited returncode _ _ =>
      if returncode = 0 then some (s.finish .applied) else some (s.goto (.restoring previous))
    | .raised _ => some (s.finish .raised)
  | .restoring previous =>
    match previous with
    | none => some (s.finish .raised)
    | some text =>
      if (strip text).isEmpty then some (s.finish .raised)
      else
        some ({ s with
          file := (host.applyHelper text s.file).file
          written := s.written ++ [readList previous] }.finish .raised)
  | .done _ => none

/-- One step of the cycle or of another operation. -/
def cycleStep (service : FeedService) (s : CycleState) : CycleAction → Option CycleState
  | .prepare statement =>
    match s.pc with
    | .preparing => some { s with tables := statement.exec s.tables }
    | _ => none
  | .fetched empty =>
    match s.pc with
    | .preparing => some (s.goto (.planSources empty))
    | _ => none
  | .next host now => advance service host now s
  | .other statement => some { s with tables := statement.exec s.tables }
  | .otherLock => if s.lock = .free then some { s with lock := .other } else none
  | .otherUnlock => if s.lock = .other then some { s with lock := .free } else none
  | .otherFile file => if s.lock = .other then some { s with file := file } else none

def cycleStart (tables : FeedTables) (file : Option Text) (endpointIp : Option ℕ)
    (lock : ManagerLock) : CycleState :=
  ⟨tables, file, endpointIp, lock, .preparing, none, []⟩

end VpnBot.Warp
