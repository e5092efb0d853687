import Mathlib.Data.Rat.Defs
import VpnBot.Python.Sha256
import VpnBot.Warp.Feeds

/-!
# The analysis of a change to the split list

`src/warp/split_analysis.py`: a candidate list is compared with the list on disk and with the
coverage of the last applied state, and every reason against applying it unattended is a `Hold`.
Percentages are rational numbers.
-/

namespace VpnBot.Warp

open Py

/-! ### The data -/

/-- The tunables. -/
structure Thresholds where
  maxShrinkPct : ℤ
  maxGrowthPct : ℤ
  staleAfterSec : ℤ

/-- One enabled source as the analyser sees it. -/
structure SourceState where
  slug : Text
  mode : Mode
  coverage : Coverage
  ageSec : Option ℤ
  emptyParse : Bool

inductive HoldCode
  | shrinkAdd
  | shrinkSubtract
  | growth
  | emptySource
  | staleSource
  deriving DecidableEq

/-- One reason why a candidate must not be applied unattended. -/
structure Hold where
  code : HoldCode
  slug : Option Text
  pct : ℚ
  before : ℤ
  after : ℤ
  deriving DecidableEq

/-- The numbers of a source before and after. -/
structure SourceChange where
  slug : Text
  mode : Mode
  before : Option Coverage
  after : Coverage
  ageSec : Option ℤ
  stale : Bool

/-- The verdict on one candidate list. -/
structure ChangeAnalysis where
  prefixesBefore : ℕ
  prefixesAfter : ℕ
  addressesBefore : ℕ
  addressesAfter : ℕ
  listHash : Text
  added : List Text
  removed : List Text
  sources : List SourceChange
  holds : List Hold
  sameSpace : Bool

namespace ChangeAnalysis

/-- Nothing is added and nothing removed. -/
def identical (analysis : ChangeAnalysis) : Bool :=
  analysis.added.isEmpty && analysis.removed.isEmpty

/-- The candidate cuts the same address space into other entries. -/
def pureAggregation (analysis : ChangeAnalysis) : Bool :=
  !analysis.identical && analysis.sameSpace

/-- Something speaks against applying the candidate unattended. -/
def suspicious (analysis : ChangeAnalysis) : Bool := !analysis.holds.isEmpty

end ChangeAnalysis

/-! ### The measurements -/

/-- `list_hash`: the hash of the sorted set of the entries. -/
def listHash (prefixes : List Text) : Text :=
  Sha256.hexdigest (join '\n' (sortTexts prefixes.dedup))

/-- `collapsed_networks`. -/
def collapsedNetworks (prefixes : List Text) : List IPv4Network := collapse (toNetworks prefixes)

/-- `coverage_of`. -/
def coverageOf (prefixes : List Text) : Coverage :=
  ⟨(collapsedNetworks prefixes).length, addressCount (collapsedNetworks prefixes)⟩

/-- The part of a baseline, in percent, that a change of the given size makes up. -/
def percentOf (baseline : Option Coverage) (change : ℕ → ℤ) : ℚ :=
  match baseline with
  | none => 0
  | some before =>
    if before.addresses = 0 then 0 else max 0 (100 * (change before.addresses : ℚ) / before.addresses)

/-- `SourceChange.shrink_pct`. -/
def SourceChange.shrinkPct (change : SourceChange) : ℚ :=
  percentOf change.before fun addresses => addresses - change.after.addresses

/-- The change of one source against its baseline. -/
def sourceChange (baselines : Dict Text Coverage) (thresholds : Thresholds) (source : SourceState) :
    SourceChange :=
  let baseline := baselines.get? source.slug
  let old := source.ageSec.elim true fun age => decide (thresholds.staleAfterSec < age)
  ⟨source.slug, source.mode, baseline, source.coverage, source.ageSec, old && baseline.isSome⟩

/-- The holds of one source: it has vanished or shrunk, and it has not been fetched for long. -/
def sourceHolds (thresholds : Thresholds) (source : SourceState) (change : SourceChange) :
    List Hold :=
  let before : ℤ := change.before.elim 0 fun b => b.addresses
  let after : ℤ := source.coverage.addresses
  let vanished := source.emptyParse || (source.coverage.prefixes = 0 && change.before.isSome)
  (if vanished then [⟨.emptySource, some source.slug, 0, before, after⟩]
    else if (thresholds.maxShrinkPct : ℚ) < change.shrinkPct then
      [⟨if source.mode = .subtract then .shrinkSubtract else .shrinkAdd, some source.slug,
        change.shrinkPct, before, after⟩]
    else []) ++
  if change.stale then
    [⟨.staleSource, some source.slug, 0, source.ageSec.getD (-1), thresholds.staleAfterSec⟩]
  else []

/-- The hold of a list that has outgrown its baseline. -/
def growthHolds (listBaseline : Option Coverage) (thresholds : Thresholds) (after : Coverage) :
    List Hold :=
  match listBaseline with
  | none => []
  | some baseline =>
    if baseline.addresses = 0 then []
    else
      let growth : ℚ := 100 * ((after.addresses : ℤ) - baseline.addresses : ℤ) / baseline.addresses
      if (thresholds.maxGrowthPct : ℚ) < growth then
        [⟨.growth, none, growth, baseline.addresses, after.addresses⟩]
      else []

/-- `LIST_SCOPE`: the key of the whole list among the baselines. -/
def LIST_SCOPE : Text := "list".toList

/-- `analyse_change`. -/
def analyseChange (current candidate : List Text) (sources : List SourceState)
    (baselines : Dict Text Coverage) (thresholds : Thresholds) : ChangeAnalysis where
  prefixesBefore := current.length
  prefixesAfter := candidate.length
  addressesBefore := (coverageOf current).addresses
  addressesAfter := (coverageOf candidate).addresses
  listHash := listHash candidate
  added := sortTexts (candidate.dedup.filter (· ∉ current))
  removed := sortTexts (current.dedup.filter (· ∉ candidate))
  sources := sources.map (sourceChange baselines thresholds)
  holds := (sources.flatMap fun s => sourceHolds thresholds s (sourceChange baselines thresholds s)) ++
    growthHolds (baselines.get? LIST_SCOPE) thresholds (coverageOf candidate)
  sameSpace := collapsedNetworks current = collapsedNetworks candidate

/-! ### What the hash says -/

/-- The text that `list_hash` hashes. -/
def hashedText (prefixes : List Text) : Text := join '\n' (sortTexts prefixes.dedup)

/-- Two different texts with one hash. -/
def Collision (s t : Text) : Prop := s ≠ t ∧ Sha256.hexdigest s = Sha256.hexdigest t

/-- The entries are not empty, and each stands on one line. -/
def OneLine (l : List Text) : Prop := ∀ p ∈ l, p ≠ [] ∧ '\n' ∉ p

/-- Two lists have the same entries, or their texts collide. -/
def SameEntries (l l' : List Text) : Prop :=
  (∀ p, p ∈ l ↔ p ∈ l') ∨ Collision (hashedText l) (hashedText l')

theorem sortTexts_dedup_of_hashedText {l : List Text} (hl : OneLine l) :
    sortTexts l.dedup = if hashedText l = [] then [] else splitAt '\n' (hashedText l) := by
  have hmem : ∀ p ∈ sortTexts l.dedup, p ≠ [] ∧ '\n' ∉ p := fun p hp =>
    hl p (List.mem_dedup.1 (mem_sortTexts.1 hp))
  rw [hashedText]
  cases hlist : sortTexts l.dedup with
  | nil => rfl
  | cons p ps =>
    rw [hlist] at hmem
    have hne : join '\n' (p :: ps) ≠ [] := by
      intro hnil
      have hsplit := splitAt_join (List.cons_ne_nil p ps) fun q hq => (hmem q hq).2
      rw [hnil] at hsplit
      have hp : p = [] := (List.cons.inj hsplit).1.symm
      exact (hmem p List.mem_cons_self).1 hp
    rw [if_neg hne, splitAt_join (List.cons_ne_nil p ps) fun q hq => (hmem q hq).2]

/-- **Lists with one hash have the same entries**, unless the hash collides. -/
theorem sameEntries_of_listHash {l l' : List Text} (hl : OneLine l) (hl' : OneLine l')
    (h : listHash l = listHash l') : SameEntries l l' := by
  by_cases htext : hashedText l = hashedText l'
  · have hsort : sortTexts l.dedup = sortTexts l'.dedup := by
      rw [sortTexts_dedup_of_hashedText hl, sortTexts_dedup_of_hashedText hl', htext]
    refine Or.inl fun p => ?_
    rw [← List.mem_dedup, ← mem_sortTexts, hsort, mem_sortTexts, List.mem_dedup]
  · exact Or.inr ⟨htext, h⟩

theorem oneLine_map_text (networks : List IPv4Network) : OneLine (networks.map IPv4.text) := by
  intro p hp
  obtain ⟨n, -, rfl⟩ := List.mem_map.1 hp
  constructor
  · intro hnil
    have hparse := IPv4.parse_text false n
    rw [hnil] at hparse
    cases hparse
  · simp only [IPv4.text, IPv4.addressText, join, IPv4.octets, List.map_cons, List.map_nil,
      List.intercalate]
    simp [not_mem_natText (c := '\n') rfl]

theorem prefixes_of_mergeSplitList {manual exclusions : List IPv4Network}
    {sources : List SourceContribution} {report : MergeReport}
    (h : mergeSplitList manual sources exclusions = some report) :
    ∃ networks : List IPv4Network, report.prefixes = networks.map IPv4.text := by
  simp only [mergeSplitList, Option.bind_eq_bind, Option.bind_eq_some_iff] at h
  obtain ⟨buckets, -, merged, -, excluded, -, hreport⟩ := h
  cases hreport
  exact ⟨_, rfl⟩

theorem oneLine_of_planOf {sources : List SplitSource} {stored : Text → List Text}
    {manual exclusions current : List Text} {plan : MergePlan}
    (h : planOf sources stored manual exclusions current = .ok plan) : OneLine plan.prefixes := by
  cases hcontributions : (sources.filter SplitSource.takesPart).mapM (contribution stored) with
  | error e =>
    rw [planOf, hcontributions] at h
    cases h
  | ok contributions =>
    rw [planOf_of_contributions hcontributions] at h
    cases hmerge : mergeSplitList (toNetworks manual) contributions (toNetworks exclusions) with
    | none =>
      rw [hmerge] at h
      cases h
    | some report =>
      rw [hmerge] at h
      cases h
      obtain ⟨networks, hnetworks⟩ := prefixes_of_mergeSplitList hmerge
      rw [hnetworks]
      exact oneLine_map_text networks

end VpnBot.Warp
