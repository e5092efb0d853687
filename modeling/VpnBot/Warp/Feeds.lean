import VpnBot.Warp.SplitManager

/-!
# The feed service: merging and operator edits

`src/services/warp_split_feeds.py`: the one-time adoption of the list file, `build_plan`, and the
five edits an operator makes to the split list.  Each edit writes the tables, commits, and then
recomputes and applies the list.
-/

namespace VpnBot.Warp

open Py Sys FeedTables

/-- A computed candidate list. -/
structure MergePlan where
  prefixes : List Text
  report : MergeReport
  current : List Text
  subtractPairs : List (Text × Text)

/-! ### Building a plan -/

/-- `_to_networks`: stored texts that are no IPv4 network are dropped. -/
def toNetworks (prefixes : List Text) : List IPv4Network := prefixes.filterMap ipNetwork

/-- The sources that enter the merge: an add source that is not in the list is passed over. -/
def SplitSource.takesPart (source : SplitSource) : Bool :=
  source.enabled && !(source.mode = .add && !source.includeInList)

/-- The contribution of a source; one that has never produced a prefix stops the merge. -/
def contribution (stored : Text → List Text) (source : SplitSource) :
    Except SplitError SourceContribution :=
  if (stored source.slug).isEmpty then .error (.noCache source.slug)
  else .ok ⟨source.slug, source.mode, toNetworks (stored source.slug), source.scopeSlug⟩

/-- The pairs of a subtraction and what it is taken from, for the message of the cap. -/
def subtractPairs (sources : List SplitSource) : List (Text × Text) :=
  (sources.filter fun s => s.mode = .subtract).map fun s =>
    (s.scopeSlug.getD "all".toList, s.slug)

/-- The computation of `build_plan` on what it has read. -/
def planOf (sources : List SplitSource) (stored : Text → List Text)
    (manual exclusions current : List Text) : Except SplitError MergePlan := do
  let taking := sources.filter SplitSource.takesPart
  let contributions ← taking.mapM (contribution stored)
  match mergeSplitList (toNetworks manual) contributions (toNetworks exclusions) with
  | none => .error .valueError
  | some report => .ok ⟨report.prefixes, report, current, subtractPairs taking⟩

theorem planOf_of_contributions {sources : List SplitSource} {stored : Text → List Text}
    {manual exclusions current : List Text} {contributions : List SourceContribution}
    (h : (sources.filter SplitSource.takesPart).mapM (contribution stored) = .ok contributions) :
    planOf sources stored manual exclusions current =
      (mergeSplitList (toNetworks manual) contributions (toNetworks exclusions)).elim (.error .valueError)
        fun report =>
          .ok ⟨report.prefixes, report, current, subtractPairs (sources.filter SplitSource.takesPart)⟩ := by
  rw [planOf, h]
  cases hmerge : mergeSplitList (toNetworks manual) contributions (toNetworks exclusions) <;>
    simp [bind, Except.bind, hmerge]

/-- `build_plan`. -/
def buildPlan : SplitM MergePlan :=
  Program.ofExcept fun s =>
    planOf s.tables.sources s.tables.prefixesFor s.tables.manualPrefixes s.tables.exclusions
      (readList s.file)

/-- `_recompute_for_apply`. -/
def recomputeForApply : SplitM (List Text) := do
  let plan ← buildPlan
  return plan.prefixes

/-! ### Adoption -/

/-- `_ADOPTED_META_KEY`. -/
def ADOPTED_META_KEY : Text := "warp_split_manual_adopted".toList

/-- The tables after the list file is taken over as the manual set, which happens once. -/
def adopt (file : Option Text) (tables : FeedTables) : FeedTables :=
  if tables.getMeta ADOPTED_META_KEY = some ['1'] then tables
  else
    let existing := readList file
    let tables := if existing.isEmpty then tables else tables.setManualPrefixes existing
    tables.setMeta ADOPTED_META_KEY ['1']

/-- `ensure_manual_adopted`. -/
def ensureManualAdopted : SplitM Unit := modify fun s => { s with tables := adopt s.file s.tables }

/-- A repository call that changes the tables. -/
def change (f : FeedTables → FeedTables) : SplitM Unit :=
  modify fun s => { s with tables := f s.tables }

/-! ### The edits -/

/-- What one range leaves of a network: nothing, the rest around it, or the network itself. -/
def withoutTarget (part target : IPv4Network) : Option (List IPv4Network) :=
  if part.subnetOf target then some []
  else if target.subnetOf part then part.addressExclude target
  else some [part]

/-- One round over the pieces that are left. -/
def withoutTargetAll (target : IPv4Network) : List IPv4Network → Option (List IPv4Network)
  | [] => some []
  | part :: parts => do
    let pieces ← withoutTarget part target
    let rest ← withoutTargetAll target parts
    return pieces ++ rest

def manualRowWithout (targets : List IPv4Network) (raw : Text) : Option (List Text × List Text) := do
  let net ← IPv4.parse false raw
  if targets.any fun target => net.overlaps target then
    let rest ← targets.foldlM (fun rest target => withoutTargetAll target rest) [net]
    return ([raw], (sortNetworks rest).map IPv4.text)
  else return ([], [])

/-- `_manual_rows_without`; `none` is the `ValueError` for a text that is no IPv4 network. -/
def manualRowsWithout (manual ranges : List Text) : Option (List Text × List Text) := do
  let targets ← ranges.mapM (IPv4.parse false)
  let rows ← manual.mapM (manualRowWithout targets)
  return (rows.flatMap Prod.fst, rows.flatMap Prod.snd)

/-- The networks that the enabled add sources bring into the list. -/
def coveredNetworks (tables : FeedTables) : List IPv4Network :=
  (tables.sources.filter SplitSource.contributesToList).flatMap fun s =>
    toNetworks (tables.prefixesFor s.slug)

/-- Whether a manual row lies in one of the networks; `none` is the `ValueError` of a row that is
no IPv4 network, which is parsed only when there is a network to compare it with. -/
def isRedundant (covered : List IPv4Network) (p : Text) : Option Bool :=
  if covered.isEmpty then some false
  else (IPv4.parse true p).map fun n => covered.any fun net => n.subnetOf net

/-- The manual rows that the feeds cover already. -/
def redundantRows (covered : List IPv4Network) (manual : List Text) : Option (List Text) := do
  let flags ← manual.mapM (isRedundant covered)
  return ((manual.zip flags).filter Prod.snd).map Prod.fst

section Edits

variable (manager : SplitManager) (host : Host)

/-- `add_manual`. -/
def addManual (tokens : List Text) : SplitM (List CidrResult × Option ApplyOutcome) := do
  ensureManualAdopted
  refreshEndpoint host
  let s ← get
  let current := s.tables.manualPrefixes ++ readList s.file
  let r := processAddTokens manager host s.endpointIp tokens current
  if r.2.isEmpty then return (r.1, none)
  else do
    change (addManualPrefixes r.2)
    let outcome ← applyComputed manager host recomputeForApply
    return (r.1, some outcome)

/-- `remove_manual_many`. -/
def removeManualMany (prefixes : List Text) : SplitM ApplyOutcome := do
  ensureManualAdopted
  let s ← get
  match manualRowsWithout s.tables.manualPrefixes prefixes with
  | none => throw .valueError
  | some (drop, add) => do
    change (removeManualPrefixes drop)
    change (addManualPrefixes add)
    applyComputed manager host recomputeForApply

/-- `exclude_prefix`. -/
def excludePrefix (p : Text) : SplitM ApplyOutcome := do
  ensureManualAdopted
  change (addExclusion p)
  change (removeManualPrefixes [p])
  applyComputed manager host recomputeForApply

/-- `unexclude_prefix`, the one edit that does not adopt the list file first. -/
def unexcludePrefix (p : Text) : SplitM ApplyOutcome := do
  change (removeExclusion p)
  applyComputed manager host recomputeForApply

/-- `migrate_manual_into_feeds`. -/
def migrateManualIntoFeeds : SplitM (ℕ × ApplyOutcome) := do
  ensureManualAdopted
  let s ← get
  match redundantRows (coveredNetworks s.tables) s.tables.manualPrefixes with
  | none => throw .valueError
  | some redundant => do
    change (removeManualPrefixes redundant)
    let outcome ← applyComputed manager host recomputeForApply
    return (redundant.length, outcome)

end Edits

end VpnBot.Warp
