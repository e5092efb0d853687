import VpnBot.Warp.Cycle
import VpnBot.Warp.EditAtomicity

/-!
# The feed service, call by call

`run_cycle`, `apply_pending` and `reject_pending` of `src/services/warp_split_feeds.py` as programs,
next to the edits of `Feeds` and to writes of the list file by others.  A `ServiceState` is what is left
between two calls; `serviceStep` makes one call.

A run fetches every enabled source, merges, analyses the candidate and goes one of seven ways.
`refreshed` is the state after the fetch, which a run reaches in any case, and `candidateOf` the list
that is computed from it.

Not modelled: alerts, the texts of a card, the run journal, the reason stored with a candidate, and the
hold that `review` adds to the analysis.
-/

namespace VpnBot.Warp

open Py Sys FeedTables

/-! ### The state -/

/-- `PendingCandidate`: the candidate that waits for an admin. -/
structure PendingCandidate where
  listHash : Text
  prefixes : List Text

/-- What is left between two calls; `baselineHash` is the list hash stored with the baselines. -/
structure ServiceState where
  split : SplitState
  baselineHash : Option Text
  pending : Option PendingCandidate

/-- The exceptions of the service. -/
inductive FeedError
  | split (e : SplitError)
  | noPending
  /-- `WarpFeedStaleCandidate`. -/
  | stale
  deriving DecidableEq

/-- A method of the service. -/
abbrev FeedM := Program ServiceState FeedError

/-- A program on the tables, the list file and the endpoint. -/
def onSplit {α : Type} (p : SplitM α) : FeedM α :=
  Program.zoom ServiceState.split (fun t s => { s with split := t }) FeedError.split p

namespace ServiceState

def tables (s : ServiceState) : FeedTables := s.split.tables

def file (s : ServiceState) : Option Text := s.split.file

def withTables (tables : FeedTables) (s : ServiceState) : ServiceState :=
  { s with split := { s.split with tables := tables } }

@[simp] theorem tables_withTables (tables : FeedTables) (s : ServiceState) :
    (s.withTables tables).tables = tables := rfl

end ServiceState

/-! ### Fetching -/

/-- What the fetch of one source gives: an error, or a document with the networks that it lists. -/
inductive FetchOutcome
  | failed
  | published (networks : List IPv4Network)

/-- `SourceRefresh.status`, with the statuses of a success taken together. -/
inductive RefreshStatus
  | ok
  | error
  | empty
  deriving DecidableEq

/-- `SourceRefresh`. -/
structure SourceRefresh where
  slug : Text
  status : RefreshStatus
  prefixCount : ℕ

/-- What happened to one source: a document without networks is an `EmptyFeedError`. -/
def sourceRefresh (fetches : Text → FetchOutcome) (source : SplitSource) : SourceRefresh :=
  match fetches source.slug with
  | .failed => ⟨source.slug, .error, 0⟩
  | .published networks =>
    if networks.isEmpty then ⟨source.slug, .empty, 0⟩
    else ⟨source.slug, .ok, networks.length⟩

/-- The tables after `_refresh_one`: a failure leaves the last good contribution. -/
def refreshOne (fetches : Text → FetchOutcome) (now : ℤ) (tables : FeedTables)
    (source : SplitSource) : FeedTables :=
  match fetches source.slug with
  | .failed => tables
  | .published networks =>
    if networks.isEmpty then tables
    else
      updateSource source.slug (fun s => { s with lastSuccessTs := now })
        (tables.replacePrefixes source.slug (networks.map IPv4.text))

/-- The tables after `_refresh_sources`: every enabled source, one at a time. -/
def refreshSources (fetches : Text → FetchOutcome) (now : ℤ) (tables : FeedTables) : FeedTables :=
  (tables.sources.filter SplitSource.enabled).foldl (refreshOne fetches now) tables

/-- The feeds that answered without a network. -/
def emptyParses (fetches : Text → FetchOutcome) (tables : FeedTables) : List Text :=
  (((tables.sources.filter SplitSource.enabled).map (sourceRefresh fetches)).filter
    fun r => r.status = .empty).map SourceRefresh.slug

/-! ### The baseline -/

/-- The origins that have stored prefixes: the keys of `all_prefixes`. -/
def storedOrigins (tables : FeedTables) : List Text := (tables.prefixes.map Prod.fst).dedup

/-- The coverages of `_capture_baseline`: of the list, and of everything that is stored. -/
def coverages (tables : FeedTables) (current : List Text) : Dict Text Coverage :=
  (storedOrigins tables).foldl
    (fun d origin => d.set origin (coverageOf (tables.prefixesFor origin)))
    (Dict.singleton LIST_SCOPE (coverageOf current))

/-- `_capture_baseline`: an empty list file leaves the baseline alone. -/
def captureBaseline (s : ServiceState) : ServiceState :=
  let current := readList s.file
  if current.isEmpty then s
  else
    { s.withTables { s.tables with baselines := coverages s.tables current } with
      baselineHash := some (listHash current) }

/-- The list file is not the one that the baseline was captured from. -/
def FileChanged (s : ServiceState) : Prop :=
  (readList s.file).isEmpty = false ∧ s.baselineHash ≠ some (listHash (readList s.file))

instance (s : ServiceState) : Decidable (FileChanged s) := inferInstanceAs (Decidable (_ ∧ _))

/-- `_reconcile_baseline`. -/
def reconcileBaseline (s : ServiceState) : ServiceState :=
  if FileChanged s then captureBaseline s else s

/-! ### The streak and the pending candidate -/

/-- The streak after one more sighting of a candidate. -/
def nextStreak (candidateHash : Text) (tables : FeedTables) : ℤ :=
  if tables.getMeta STREAK_HASH_KEY = some candidateHash then
    streakOf (tables.getMeta STREAK_COUNT_KEY) + 1
  else 1

/-- The tables after `_bump_streak`. -/
def bumpStreak (candidateHash : Text) (tables : FeedTables) : FeedTables :=
  (tables.setMeta STREAK_HASH_KEY candidateHash).setMeta STREAK_COUNT_KEY
    (intText (nextStreak candidateHash tables))

/-- The tables after `_reset_streak`. -/
def resetStreak (tables : FeedTables) : FeedTables :=
  (tables.setMeta STREAK_HASH_KEY []).setMeta STREAK_COUNT_KEY "0".toList

/-- A program of the service that only changes its state. -/
def update (f : ServiceState → ServiceState) : FeedM Unit := modify f

def updateTables (f : FeedTables → FeedTables) : FeedM Unit :=
  update fun s => s.withTables (f s.tables)

/-- `_forget_pending` and `clear_pending`. -/
def forgetPending : FeedM Unit := update fun s => { s with pending := none }

/-! ### The unattended run -/

/-- What a run meets: the answers to its requests, the clock, and the host at the check of the candidate
and at the apply. -/
structure RunInput where
  fetches : Text → FetchOutcome
  now : ℤ
  checkHost : Host
  applyHost : Host

/-- `CycleResult`. -/
structure CycleResult where
  decision : Decision
  analysis : Option ChangeAnalysis
  outcome : Option ApplyOutcome
  streak : ℤ

/-- The tables before the merge of a run. -/
def refreshed (input : RunInput) (s : ServiceState) : ServiceState :=
  let adopted := s.withTables (adopt s.file s.tables)
  let reconciled := reconcileBaseline adopted
  reconciled.withTables (refreshSources input.fetches input.now reconciled.tables)

/-- The candidate that a run computes from the refreshed tables. -/
def candidateOf (s : ServiceState) : Except SplitError MergePlan :=
  planOf s.tables.sources s.tables.prefixesFor s.tables.manualPrefixes s.tables.exclusions
    (readList s.file)

/-- `_analyse`. -/
def analyse (service : FeedService) (now : ℤ) (empty : List Text) (plan : MergePlan)
    (tables : FeedTables) : ChangeAnalysis :=
  analyseChange plan.current plan.prefixes (sourceStates empty plan now tables.sources)
    tables.baselines service.thresholds

section Runs

variable (service : FeedService)

/-- What follows an apply: the baseline, the streak and the pending candidate. -/
def afterApply : FeedM Unit := do
  update captureBaseline
  updateTables resetStreak
  forgetPending

/-- The end of a run that goes on to the apply; a cap and a missing operand are rejections. -/
def applyRun (input : RunInput) (analysis : ChangeAnalysis) (streak : ℤ) : FeedM CycleResult := do
  let applied ← tryCatch
    (some <$> onSplit (applyComputed service.manager input.applyHost recomputeForApply))
    fun e =>
      match e with
      | .split (.capExceeded _ _) | .split (.noCache _) => pure none
      | e => throw e
  match applied with
  | none => return ⟨.rejected, some analysis, none, streak⟩
  | some outcome => do
    afterApply
    return ⟨if outcome.unchanged then .nochange else .applied, some analysis, some outcome, streak⟩

/-- What follows the check of the candidate. -/
def decideRun (input : RunInput) (plan : MergePlan) (analysis : ChangeAnalysis) :
    FeedM CycleResult :=
  if service.mode = .review ∨ analysis.suspicious then do
    -- `_queue`
    update fun s => { s with pending := some ⟨analysis.listHash, plan.prefixes⟩ }
    return ⟨.queued, some analysis, none, 0⟩
  else if analysis.pureAggregation then applyRun service input analysis 0
  else do
    let s ← get
    let streak := nextStreak analysis.listHash s.tables
    updateTables (bumpStreak analysis.listHash)
    if streak < max 1 service.confirmStreak then return ⟨.nochange, some analysis, none, streak⟩
    else applyRun service input analysis streak

/-- `check_candidate` in a run: whether a guard rejects the candidate. -/
def checkRun (host : Host) (plan : MergePlan) : FeedM Bool :=
  tryCatch ((fun _ => true) <$> onSplit (checkCandidate service.manager host plan.prefixes))
    fun _ => pure false

/-- What follows the merge of a run. -/
def judgeRun (input : RunInput) (plan : MergePlan) : FeedM CycleResult := do
  let s ← get
  let analysis := analyse service input.now (emptyParses input.fetches s.tables) plan s.tables
  if analysis.identical then do
    forgetPending
    return ⟨.nochange, some analysis, none, 0⟩
  else do
    let passed ← checkRun service input.checkHost plan
    if passed then decideRun service input plan analysis
    else return ⟨.rejected, some analysis, none, 0⟩

/-- `run_cycle`. -/
def runCycle (input : RunInput) : FeedM CycleResult := do
  update fun s => refreshed input s
  let plan ← tryCatch (some <$> onSplit buildPlan) fun e =>
    match e with
    | .split (.noCache _) => pure none
    | e => throw e
  match plan with
  | none => return ⟨.failed, none, none, 0⟩
  | some plan => judgeRun service input plan

/-! ### The decisions of an admin -/

/-- The list of an approval: the candidate may not have changed. -/
def recomputeApproved (expected : Text) : FeedM (List Text) := do
  let prefixes ← onSplit recomputeForApply
  if listHash prefixes ≠ expected then throw .stale else return prefixes

/-- `apply_pending`. -/
def applyPending (host : Host) : FeedM ApplyOutcome := do
  let s ← get
  match s.pending with
  | none => throw .noPending
  | some candidate => do
    let _ ← recomputeApproved candidate.listHash
    let prefixes ← recomputeApproved candidate.listHash
    let outcome ← onSplit (applyLocked service.manager host prefixes false)
    afterApply
    return outcome

/-- `reject_pending`. -/
def rejectPending : FeedM Unit := forgetPending

/-- The edits with what their apply did; `none` is an edit that does not come to it. -/
def Edit.outcome (host : Host) : Edit → SplitM (Option ApplyOutcome)
  | .addManual tokens => Prod.snd <$> VpnBot.Warp.addManual service.manager host tokens
  | .removeManualMany ps => some <$> VpnBot.Warp.removeManualMany service.manager host ps
  | .excludePrefix p => some <$> VpnBot.Warp.excludePrefix service.manager host p
  | .unexcludePrefix p => some <$> VpnBot.Warp.unexcludePrefix service.manager host p
  | .migrateManualIntoFeeds =>
    (some ∘ Prod.snd) <$> VpnBot.Warp.migrateManualIntoFeeds service.manager host

end Runs

/-! ### The system -/

/-- A call of the service, or a write of the list file by somebody else. -/
inductive ServiceAction
  | run (input : RunInput)
  | approve (host : Host)
  | reject
  | edit (e : Edit) (host : Host)
  | write (file : Option Text)

/-- The service with its past: the candidates that the runs computed, the last one first, and the
contributions that took part in a list that was applied. -/
structure FeedSystem where
  service : ServiceState
  candidates : List (Option (List Text))
  used : List (Text × List Text)

/-- The contributions that take part in the merge, with the slugs of their sources. -/
def takingPart (tables : FeedTables) : List (Text × List Text) :=
  (tables.sources.filter SplitSource.takesPart).map fun s => (s.slug, tables.prefixesFor s.slug)

namespace FeedSystem

/-- A call has ended in this state, and has applied a list or not. -/
def ended (s : ServiceState) (applied : Bool) (x : FeedSystem) : FeedSystem :=
  { x with service := s, used := if applied then takingPart s.tables ++ x.used else x.used }

end FeedSystem

/-- The list that a run computes. -/
def computed (input : RunInput) (s : ServiceState) : Option (List Text) :=
  (candidateOf (refreshed input s)).toOption.map MergePlan.prefixes

/-- A run has applied a list. -/
def CycleResult.applies (r : CycleResult) : Bool := r.outcome.isSome

/-- One call. -/
def serviceStep (service : FeedService) (x : FeedSystem) : ServiceAction → Option FeedSystem
  | .run input =>
    let r := Program.result (runCycle service input) x.service
    let x' := x.ended r.2 (r.1.any CycleResult.applies)
    some { x' with candidates := computed input x.service :: x.candidates }
  | .approve host =>
    let r := Program.result (applyPending service host) x.service
    some (x.ended r.2 r.1.isSome)
  | .reject =>
    let r := Program.result rejectPending x.service
    some (x.ended r.2 false)
  | .edit e host =>
    let r := Program.result (onSplit (e.outcome service host)) x.service
    some (x.ended r.2 (r.1.any Option.isSome))
  | .write file => some { x with service.split.file := file }

/-- A service without a past. -/
def atStart (s : ServiceState) : FeedSystem := ⟨s, [], []⟩

/-! ### A service with one feed -/

/-- The network of prefix length 22 at `91.108.4.0`. -/
def net91 : IPv4Network :=
  Network.around (91 * 2 ^ 24 + 108 * 2 ^ 16 + 4 * 2 ^ 8) 22 (by decide) (by decide)

/-- The network of prefix length 20 at `149.154.160.0`. -/
def net149 : IPv4Network :=
  Network.around (149 * 2 ^ 24 + 154 * 2 ^ 16 + 160 * 2 ^ 8) 20 (by decide) (by decide)

theorem addr8_lt : 8 * 2 ^ 24 + 8 * 2 ^ 16 + 8 * 2 ^ 8 < 2 ^ 32 := by decide

/-- The network of prefix length 24 at `8.8.8.0`. -/
def net8 : IPv4Network :=
  Network.around (8 * 2 ^ 24 + 8 * 2 ^ 16 + 8 * 2 ^ 8) 24 addr8_lt prefixlen24_le

/-- The feed. -/
def telegram : Text := "telegram-cidr".toList

/-- The service in auto mode, with the default thresholds. -/
def autoFeeds (confirmStreak : ℤ) : FeedService :=
  ⟨defaultManager, .auto, ⟨20, 50, 259200⟩, confirmStreak⟩

/-- The feed is enabled, and nothing has been fetched. -/
def unfetched : ServiceState where
  split :=
    { tables :=
        { sources := [⟨telegram, .add, none, true, true, 0⟩]
          prefixes := []
          exclusionRows := []
          baselines := Dict.empty
          metaRows := Dict.empty }
      file := none
      endpointIp := none }
  baselineHash := none
  pending := none

/-- A run that meets a feed with these networks. -/
def publishedRun (networks : List IPv4Network) : RunInput :=
  ⟨fun _ => .published networks, 1000, obedientHost, obedientHost⟩

end VpnBot.Warp
