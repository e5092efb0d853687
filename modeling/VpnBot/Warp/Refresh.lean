import VpnBot.Python.JsonLoads
import VpnBot.Warp.FeedFetch
import VpnBot.Warp.RunEnds

/-!
# A refresh of the feeds

`refresh` of `src/services/warp_split_feeds.py` up to its plan, with `fetch` of
`src/adapters/warp_feed_fetcher.py`, `parse_feed` of `src/warp/split_merge.py` and the columns of a
source's row that `src/repositories/warp_split_sources.py` writes: the sources are fetched one after the
other, a failure is recorded on the row of its source, and the plan is computed from what is stored.

The answers of the servers are arbitrary.  `fetched` and `parseFeed` say what becomes of one; the only
exception that leaves `_refresh_one` is the `RecursionError` of the JSON decoder.

Not modelled: failing SQL statements, the texts of the errors, and the alerts.
-/

namespace VpnBot.Warp

open Py Sys FeedTables

/-! ### Faults -/

/-- The reasons of a `FeedFetchError` or a `FeedParseError`. -/
inductive FeedFault
  | unsupportedScheme
  | noCachedBody
  | httpStatus (code : ℕ)
  | timedOut
  | transport
  | tooLarge
  | notUtf8
  | emptyBody
  | badCacheName
  | invalidJson
  | notAnObject
  | noPrefixesArray
  | unsupportedKind
  /-- `EmptyFeedError`. -/
  | noUsablePrefixes
  deriving DecidableEq

/-- What a parser raises. -/
inductive ParseError
  | fault (f : FeedFault)
  /-- A `RecursionError`. -/
  | recursion
  deriving DecidableEq

/-! ### The parsers -/

/-- `_finish_parse`, as the texts of the networks. -/
def finishParse (networks : List IPv4Network) : Except ParseError (List Text) :=
  if networks.isEmpty then .error (.fault .noUsablePrefixes)
  else .ok ((sortNetworks networks).map IPv4.text)

/-- The network of an entry of a gstatic document; IPv6 prefixes and whatever does not parse are passed
over. -/
def googleEntry (entry : Json) : Option IPv4Network :=
  match entry.field? "ipv4Prefix".toList with
  | some (.str value) => ipNetwork value
  | _ => none

/-- `parse_google_json`. -/
def parseGoogleJson (limit : ℕ) (payload : Text) : Except ParseError (List Text) :=
  match Json.loads limit payload with
  | .error .recursion => .error .recursion
  | .error .value => .error (.fault .invalidJson)
  | .ok document =>
    if !document.isObj then .error (.fault .notAnObject)
    else
      match (document.field "prefixes".toList).asArr with
      | none => .error (.fault .noPrefixesArray)
      | some entries => finishParse (entries.filterMap googleEntry)

/-- `parse_feed`. -/
def parseFeed (limit : ℕ) (kind payload : Text) : Except ParseError (List Text) :=
  if kind = "cidr_text".toList then
    match parseCidrText payload with
    | none => .error (.fault .noUsablePrefixes)
    | some prefixes => .ok prefixes
  else if kind = "google_json".toList then parseGoogleJson limit payload
  else .error (.fault .unsupportedKind)

/-! ### Rows -/

/-- `last_status`. -/
inductive LastStatus
  | ok
  | notModified
  | error
  | empty
  deriving DecidableEq

/-- The columns of a source's row that a fetch reads or writes; `last_success_ts` is in `SplitSource`. -/
structure FeedColumns where
  url : Text
  kind : Text
  validators : Validators
  lastAttemptTs : ℤ
  lastStatus : Option LastStatus
  prefixCount : ℕ
  lastError : Option FeedFault
  failStreak : ℕ

/-- A row of `warp_split_sources`. -/
structure SourceRow where
  source : SplitSource
  columns : FeedColumns

/-- The tables, with the other columns of each row by its slug, the cached bodies and the list file.
Slugs are unique. -/
structure FeedStore where
  tables : FeedTables
  columns : Text → FeedColumns
  cache : Text → Option Text
  file : Option Text
  unique : (tables.sources.map SplitSource.slug).Nodup

namespace FeedStore

/-- `list_sources`. -/
def listSources (s : FeedStore) : List SourceRow :=
  s.tables.sources.map fun source => ⟨source, s.columns source.slug⟩

/-- The columns of one row are changed. -/
def setColumns (slug : Text) (f : FeedColumns → FeedColumns) (s : FeedStore) : FeedStore :=
  { s with columns := fun other => if other = slug then f (s.columns other) else s.columns other }

/-- `record_attempt`. -/
def recordAttempt (slug : Text) (now : ℤ) (s : FeedStore) : FeedStore :=
  s.setColumns slug fun c => { c with lastAttemptTs := now }

/-- `record_failure`. -/
def recordFailure (slug : Text) (status : LastStatus) (fault : FeedFault) (now : ℤ) (s : FeedStore) :
    FeedStore :=
  s.setColumns slug fun c =>
    { c with
      lastAttemptTs := now
      lastStatus := some status
      lastError := some fault
      failStreak := c.failStreak + 1 }

/-- `_write_cache`, which replaces the file or leaves it. -/
def writeCache (slug text : Text) (replaced : Bool) (s : FeedStore) : FeedStore :=
  if replaced then { s with cache := fun other => if other = slug then some text else s.cache other }
  else s

theorem slugs_updateSource (slug : Text) (f : SplitSource → SplitSource)
    (hf : ∀ source, (f source).slug = source.slug) (tables : FeedTables) :
    (updateSource slug f tables).sources.map SplitSource.slug = tables.sources.map SplitSource.slug := by
  unfold updateSource
  rw [List.map_map]
  apply List.map_congr_left
  intro source _
  show (if source.slug = slug then f source else source).slug = source.slug
  split_ifs
  · exact hf source
  · rfl

/-- `replace_prefixes` and `record_success`. -/
def recordSuccess (slug : Text) (payload : FeedPayload) (prefixes : List Text) (now : ℤ)
    (s : FeedStore) : FeedStore :=
  let s := s.setColumns slug fun c =>
    { c with
      lastAttemptTs := now
      lastStatus := some (if payload.status = .ok then .ok else .notModified)
      prefixCount := prefixes.length
      validators := payload.validators
      lastError := none
      failStreak := 0 }
  { s with
    tables := updateSource slug (fun source => { source with lastSuccessTs := now })
      (s.tables.replacePrefixes slug prefixes)
    unique := by
      rw [slugs_updateSource slug (fun source => { source with lastSuccessTs := now }) fun _ => rfl]
      exact s.unique }

/-- `ensure_manual_adopted`. -/
def adopted (s : FeedStore) : FeedStore :=
  { s with
    tables := adopt s.file s.tables
    unique := by
      rw [(SameFeeds.adopt s.file).sources]
      exact s.unique }

/-- `build_plan`. -/
def plan (s : FeedStore) : Except SplitError MergePlan :=
  planOf s.tables.sources s.tables.prefixesFor s.tables.manualPrefixes s.tables.exclusions
    (readList s.file)

end FeedStore

/-! ### Fetching -/

/-- What the request to a server gives; the status is not 200 and not 304. -/
inductive Answer
  | timedOut
  | transport
  | status (code : ℕ)
  | notModified
  | tooLarge
  | notUtf8
  | body (text : Text) (validators : Validators)

/-- What a refresh meets: the recursion limit of the JSON decoder, the answers of the servers and whether
the cached body can be replaced, by slug, and the clock. -/
structure FeedEnv where
  limit : ℕ
  answer : Text → Answer
  replaced : Text → Bool
  attempted : Text → ℤ
  stamped : Text → ℤ

/-- `_ALLOWED_SCHEMES`. -/
def allowedScheme (url : Text) : Bool :=
  startsWith "http://".toList url || startsWith "https://".toList url

/-- A slug that `cache_path` refuses. -/
def badCacheName (slug : Text) : Bool :=
  '/' ∈ slug || '\\' ∈ slug || slug ∈ [[], ['.'], ['.', '.']]

/-- `fetch`, apart from the write of the cache; `cache` is the cached body. -/
def fetched (row : SourceRow) (cache : Option Text) (answer : Answer) : Except FeedFault FeedPayload :=
  let slug := row.source.slug
  let cached := if badCacheName slug then none else readCache cache
  if !allowedScheme row.columns.url then .error .unsupportedScheme
  else
    match answer with
    | .timedOut => .error .timedOut
    | .transport => .error .transport
    | .status code => .error (.httpStatus code)
    | .tooLarge => .error .tooLarge
    | .notUtf8 => .error .notUtf8
    | .notModified =>
      match cached with
      | none => .error .noCachedBody
      | some text => .ok ⟨text, row.columns.validators, .notModified⟩
    | .body text validators =>
      if (strip text).isEmpty then .error .emptyBody
      else if badCacheName slug then .error .badCacheName
      else .ok ⟨text, validators, .ok⟩

inductive RefreshError
  | recursion
  deriving DecidableEq

/-- A method of the service on the stored state. -/
abbrev RefreshM := Program FeedStore RefreshError

/-- `fetch`. -/
def fetch (env : FeedEnv) (row : SourceRow) : RefreshM (Except FeedFault FeedPayload) := do
  let slug := row.source.slug
  let s ← get
  match fetched row (s.cache slug) (env.answer slug) with
  | .error fault => return .error fault
  | .ok payload => do
    modify fun s =>
      if payload.status = .ok then s.writeCache slug payload.text (env.replaced slug) else s
    return .ok payload

/-! ### Refreshing -/

structure RefreshedSource where
  slug : Text
  status : LastStatus
  prefixCount : ℕ
  error : Option FeedFault

/-- The status of a failure: an empty document has its own. -/
def faultStatus (fault : FeedFault) : LastStatus :=
  if fault = .noUsablePrefixes then .empty else .error

/-- The handler of `_refresh_one` for a `FeedFetchError` or a `FeedParseError`. -/
def recordFault (env : FeedEnv) (slug : Text) (fault : FeedFault) : RefreshM RefreshedSource := do
  modify (FeedStore.recordFailure slug (faultStatus fault) fault (env.stamped slug))
  return ⟨slug, faultStatus fault, 0, some fault⟩

namespace FeedStore

/-- `_refresh_one`. -/
def refreshOne (env : FeedEnv) (row : SourceRow) : RefreshM RefreshedSource := do
  let slug := row.source.slug
  modify (recordAttempt slug (env.attempted slug))
  match ← fetch env row with
  | .error fault => recordFault env slug fault
  | .ok payload =>
    match parseFeed env.limit row.columns.kind payload.text with
    | .error (.fault fault) => recordFault env slug fault
    | .error .recursion => throw .recursion
    | .ok prefixes => do
      modify (recordSuccess slug payload prefixes (env.stamped slug))
      return ⟨slug, if payload.status = .ok then .ok else .notModified, prefixes.length, none⟩

/-- The sources of a refresh: the enabled ones, or those of them that are named. -/
def wanted (slugs : Option (List Text)) (s : FeedStore) : List SourceRow :=
  s.listSources.filter fun row => row.source.enabled && slugs.all fun l => row.source.slug ∈ l

/-- One source after the other. -/
def refreshRows (env : FeedEnv) : List SourceRow → RefreshM (List RefreshedSource)
  | [] => return []
  | row :: rows => do
    let first ← refreshOne env row
    let rest ← refreshRows env rows
    return first :: rest

/-- `_refresh_sources`. -/
def refreshSources (env : FeedEnv) (slugs : Option (List Text)) : RefreshM (List RefreshedSource) := do
  let s ← get
  refreshRows env (wanted slugs s)

/-- `refresh`, up to the plan; a plan that cannot be built is reported. -/
def refresh (env : FeedEnv) (slugs : Option (List Text)) :
    RefreshM (List RefreshedSource × Except SplitError MergePlan) := do
  modify adopted
  let refreshed ← refreshSources env slugs
  let s ← get
  return (refreshed, s.plan)

end FeedStore

end VpnBot.Warp
