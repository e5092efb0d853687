import VpnBot.Warp.SplitMerge

/-!
# The tables of the split feeds

`src/repositories/warp_split_sources.py` over the tables of `src/db/schema.sql`: the sources, the
stored prefixes with their origins, the exclusions, and the keys of `schema_meta` that the feeds
use.  A repository function is the table operation of the same name; a query is a function of the
tables.
-/

namespace VpnBot.Warp

open Py

/-- The columns of `warp_split_sources` that the merge and the analysis read. -/
structure SplitSource where
  slug : Text
  mode : Mode
  scopeSlug : Option Text
  enabled : Bool
  includeInList : Bool
  lastSuccessTs : ℤ
  deriving DecidableEq

/-- `contributes_to_list`. -/
def SplitSource.contributesToList (source : SplitSource) : Bool :=
  source.enabled && source.mode ≠ .subtract && source.includeInList

/-- How much address space a prefix set covers, and in how many entries. -/
structure Coverage where
  prefixes : ℕ
  addresses : ℕ
  deriving DecidableEq

/-- The feed tables.  The sources stand in the order of their ids, and `baselines` is
`warp_split_baseline` without the list hash. -/
structure FeedTables where
  sources : List SplitSource
  prefixes : List (Text × Text)
  exclusionRows : List Text
  baselines : Dict Text Coverage
  metaRows : Dict Text Text

namespace FeedTables

/-! ### Queries -/

/-- `SELECT prefix … WHERE origin = ? ORDER BY prefix`; this is also the entry of `origin` in
`all_prefixes`, an origin without rows having none. -/
def prefixesFor (tables : FeedTables) (origin : Text) : List Text :=
  sortTexts ((tables.prefixes.filter fun row => row.1 = origin).map Prod.snd)

/-- The hand-typed prefixes. -/
def manualPrefixes (tables : FeedTables) : List Text := tables.prefixesFor MANUAL_ORIGIN

/-- `SELECT prefix FROM warp_split_exclusions ORDER BY prefix`. -/
def exclusions (tables : FeedTables) : List Text := sortTexts tables.exclusionRows

/-- `get_meta`. -/
def getMeta (tables : FeedTables) (key : Text) : Option Text := tables.metaRows.get? key

/-! ### Changes -/

/-- `INSERT OR IGNORE`: a row whose key is present is left out. -/
def insertOrIgnore {α : Type} [DecidableEq α] (rows : List α) (row : α) : List α :=
  if row ∈ rows then rows else rows ++ [row]

/-- `INSERT OR IGNORE INTO warp_split_prefixes` for each of the prefixes. -/
def insertPrefixes (origin : Text) (prefixes : List Text) (tables : FeedTables) : FeedTables :=
  { tables with
    prefixes := prefixes.foldl (fun rows p => insertOrIgnore rows (origin, p)) tables.prefixes }

/-- `DELETE FROM warp_split_prefixes WHERE origin = ?`. -/
def deleteOrigin (origin : Text) (tables : FeedTables) : FeedTables :=
  { tables with prefixes := tables.prefixes.filter fun row => row.1 ≠ origin }

/-- Make the contribution of an origin exactly the given prefixes. -/
def replacePrefixes (origin : Text) (prefixes : List Text) (tables : FeedTables) : FeedTables :=
  (tables.deleteOrigin origin).insertPrefixes origin prefixes

def setManualPrefixes (prefixes : List Text) (tables : FeedTables) : FeedTables :=
  tables.replacePrefixes MANUAL_ORIGIN prefixes

def addManualPrefixes (prefixes : List Text) (tables : FeedTables) : FeedTables :=
  tables.insertPrefixes MANUAL_ORIGIN prefixes

def removeManualPrefixes (prefixes : List Text) (tables : FeedTables) : FeedTables :=
  { tables with
    prefixes := tables.prefixes.filter fun row => ¬ (row.1 = MANUAL_ORIGIN ∧ row.2 ∈ prefixes) }

def addExclusion (p : Text) (tables : FeedTables) : FeedTables :=
  { tables with exclusionRows := insertOrIgnore tables.exclusionRows p }

def removeExclusion (p : Text) (tables : FeedTables) : FeedTables :=
  { tables with exclusionRows := tables.exclusionRows.filter fun q => q ≠ p }

def setMeta (key value : Text) (tables : FeedTables) : FeedTables :=
  { tables with metaRows := tables.metaRows.set key value }

/-! ### What the changes do -/

variable {tables : FeedTables} {origin origin' p : Text} {prefixes : List Text}

theorem mem_prefixesFor : p ∈ tables.prefixesFor origin ↔ (origin, p) ∈ tables.prefixes := by
  simp [prefixesFor]

theorem mem_exclusions : p ∈ tables.exclusions ↔ p ∈ tables.exclusionRows := mem_sortTexts

theorem mem_insertOrIgnore {α : Type} [DecidableEq α] {rows : List α} {row a : α} :
    a ∈ insertOrIgnore rows row ↔ a ∈ rows ∨ a = row := by
  unfold insertOrIgnore
  split_ifs with h
  · constructor
    · exact Or.inl
    · rintro (ha | rfl)
      · exact ha
      · exact h
  · rw [List.mem_append, List.mem_singleton]

theorem mem_insertPrefixes {row : Text × Text} :
    row ∈ (tables.insertPrefixes origin prefixes).prefixes ↔
      row ∈ tables.prefixes ∨ row.1 = origin ∧ row.2 ∈ prefixes := by
  unfold insertPrefixes
  dsimp only
  generalize tables.prefixes = rows
  induction prefixes generalizing rows with
  | nil => simp
  | cons q prefixes ih =>
    rw [List.foldl_cons, ih, mem_insertOrIgnore, List.mem_cons, Prod.ext_iff]
    tauto

theorem prefixesFor_congr {tables' : FeedTables}
    (h : tables'.prefixes.filter (fun row => row.1 = origin) =
      tables.prefixes.filter fun row => row.1 = origin) :
    tables'.prefixesFor origin = tables.prefixesFor origin := by
  rw [prefixesFor, prefixesFor, h]

theorem filter_insertPrefixes (h : origin' ≠ origin) :
    (tables.insertPrefixes origin prefixes).prefixes.filter (fun row => row.1 = origin') =
      tables.prefixes.filter fun row => row.1 = origin' := by
  unfold insertPrefixes
  dsimp only
  generalize tables.prefixes = rows
  induction prefixes generalizing rows with
  | nil => rfl
  | cons q prefixes ih =>
    rw [List.foldl_cons, ih]
    unfold insertOrIgnore
    split_ifs
    · rfl
    · rw [List.filter_append]
      simp [Ne.symm h]

theorem prefixesFor_insertPrefixes_of_ne (h : origin' ≠ origin) :
    (tables.insertPrefixes origin prefixes).prefixesFor origin' = tables.prefixesFor origin' :=
  prefixesFor_congr (filter_insertPrefixes h)

theorem mem_prefixesFor_insertPrefixes :
    p ∈ (tables.insertPrefixes origin prefixes).prefixesFor origin ↔
      p ∈ tables.prefixesFor origin ∨ p ∈ prefixes := by
  simp [mem_prefixesFor, mem_insertPrefixes]

theorem prefixesFor_removeManualPrefixes_of_ne (h : origin ≠ MANUAL_ORIGIN) :
    (tables.removeManualPrefixes prefixes).prefixesFor origin = tables.prefixesFor origin := by
  refine prefixesFor_congr ?_
  unfold removeManualPrefixes
  rw [List.filter_filter]
  refine List.filter_congr fun row _ => ?_
  by_cases hrow : row.1 = origin
  · simp [hrow, h]
  · simp [hrow]

theorem mem_manualPrefixes_removeManualPrefixes :
    p ∈ (tables.removeManualPrefixes prefixes).manualPrefixes ↔
      p ∈ tables.manualPrefixes ∧ p ∉ prefixes := by
  simp [manualPrefixes, mem_prefixesFor, removeManualPrefixes]

theorem prefixesFor_deleteOrigin_of_ne (h : origin' ≠ origin) :
    (tables.deleteOrigin origin).prefixesFor origin' = tables.prefixesFor origin' := by
  refine prefixesFor_congr ?_
  unfold deleteOrigin
  rw [List.filter_filter]
  refine List.filter_congr fun row _ => ?_
  by_cases hrow : row.1 = origin'
  · simp [hrow, h]
  · simp [hrow]

theorem prefixesFor_replacePrefixes_of_ne (h : origin' ≠ origin) :
    (tables.replacePrefixes origin prefixes).prefixesFor origin' = tables.prefixesFor origin' :=
  (prefixesFor_insertPrefixes_of_ne h).trans (prefixesFor_deleteOrigin_of_ne h)

end FeedTables

end VpnBot.Warp
