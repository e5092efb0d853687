import VpnBot.Warp.AddressSpace

/-!
# Which feeds keep a range routed

`remove_manual_many` and `feed_origins` of `src/services/warp_split_feeds.py` take the same rows out of the
manual set.  The rows are exact: what stays and what is added cover the manual set without the ranges, and a
row that goes is none that comes (`removesExactly_manualRowsWithout`).  A merge sees only the addresses of the
manual set (`planOf_congr_manual`), so that the dry run of `feed_origins` returns the plan of the tables after
the edit, and its answer is empty exactly when this plan routes nothing of the range.

The state does not change between the reads of `feed_origins`.
-/

namespace VpnBot.Warp

open Py Py.Network FeedTables

/-! ### The dry run -/

/-- `resolve_origins` for one range: the origins whose networks overlap it, and none for a range with host
bits.  A stored text that is no network is a `ValueError`. -/
def resolveOrigin (p : Text) (contributions : List (Text × List Text)) : Option (List Text) := do
  let parsed ← contributions.mapM fun c => (c.1, ·) <$> c.2.mapM (IPv4.parse true)
  match IPv4.parse true p with
  | none => return []
  | some net =>
    return sortTexts ((parsed.filter fun c => (collapse c.2).any (·.overlaps net)).map Prod.fst)

/-- The stored prefixes of the sources that contribute to the list. -/
def liveContributions (tables : FeedTables) : List (Text × List Text) :=
  let live := (tables.sources.filter SplitSource.contributesToList).map SplitSource.slug
  ((tables.prefixes.map Prod.fst).dedup.filter (· ∈ live)).map fun origin =>
    (origin, tables.prefixesFor origin)

/-- `build_plan` with `manual_override`. -/
def buildPlanWith (manual : List Text) (s : SplitState) : Except SplitError MergePlan :=
  planOf s.tables.sources s.tables.prefixesFor manual s.tables.exclusions (readList s.file)

/-- Whether one of the routed prefixes overlaps the target. -/
def routesPart (prefixes : List Text) (target : IPv4Network) : Bool :=
  prefixes.any fun item => (IPv4.parse true item).any (·.overlaps target)

/-- `sorted(owners) or ["feed"]`. -/
def ownersOrFeed : List Text → List Text
  | [] => ["feed".toList]
  | owners => owners

/-- What `feed_origins` answers once the dry run has a plan. -/
def answerOf (p : Text) (target : IPv4Network) (tables : FeedTables) (plan : MergePlan) :
    Except SplitError (List Text) :=
  if routesPart plan.prefixes target then
    match resolveOrigin p (liveContributions tables) with
    | none => .error .valueError
    | some owners => .ok (ownersOrFeed owners)
  else .ok []

/-- `feed_origins`. -/
def feedOrigins (p : Text) (s : SplitState) : Except SplitError (List Text) :=
  match IPv4.parse false p, manualRowsWithout s.tables.manualPrefixes [p] with
  | some target, some (drop, add) => do
    let plan ← buildPlanWith (s.tables.manualPrefixes.filter (· ∉ drop) ++ add) s
    answerOf p target s.tables plan
  | _, _ => .error .valueError

/-! ### The rows are exact -/

theorem mapM_congr {ε α β : Type} {f g : α → Except ε β} {l : List α} (h : ∀ a ∈ l, f a = g a) :
    l.mapM f = l.mapM g := by
  induction l with
  | nil => rfl
  | cons a l ih =>
    rw [List.mapM_cons, List.mapM_cons, h a List.mem_cons_self,
      ih fun b hb => h b (List.mem_cons_of_mem _ hb)]

theorem overlaps_of_mem_manualRowWithout {targets : List IPv4Network} {raw p : Text}
    {row : List Text × List Text} (h : manualRowWithout targets raw = some row) (hp : p ∈ row.1) :
    ¬ Disjoint (IPv4.textCover [p]) (cover targets) := by
  unfold manualRowWithout at h
  cases hparse : IPv4.parse false raw with
  | none =>
    rw [hparse] at h
    cases h
  | some net =>
    rw [hparse] at h
    simp only [Option.bind_eq_bind, Option.bind_some] at h
    split_ifs at h with hany
    · obtain ⟨rest, hrest, -⟩ := cover_foldlM_withoutTargetAll targets [net]
      rw [hrest] at h
      cases h
      obtain rfl := List.mem_singleton.mp hp
      obtain ⟨target, htarget, hoverlaps⟩ := List.any_eq_true.mp hany
      obtain ⟨a, ha, hat⟩ := Set.not_disjoint_iff.mp (overlaps_iff.mp hoverlaps)
      exact Set.not_disjoint_iff.mpr ⟨a, mem_textCover_singleton.mpr ⟨net, hparse, ha⟩, target, htarget, hat⟩
    · cases h
      cases hp

/-- What `_manual_rows_without` returns for these rows and ranges: it needs networks on both sides, its rows
take out exactly the ranges, and no row is dropped and added. -/
structure RemovesExactly (manual ranges : List Text) : Prop where
  defined : (manualRowsWithout manual ranges).isSome ↔
    (∀ t ∈ ranges, (IPv4.parse false t).isSome) ∧ ∀ t ∈ manual, (IPv4.parse false t).isSome
  exact : ∀ drop add, manualRowsWithout manual ranges = some (drop, add) →
    IPv4.textCover (manual.filter (· ∉ drop) ++ add) = IPv4.textCover manual \ IPv4.textCover ranges
  apart : ∀ drop add, manualRowsWithout manual ranges = some (drop, add) → ∀ p ∈ add, p ∉ drop

theorem removesExactly_manualRowsWithout (manual ranges : List Text) : RemovesExactly manual ranges where
  defined := isSome_manualRowsWithout
  exact drop add h := by
    refine (takesOut_manualRowsWithout h).textCover fun p => ?_
    rw [List.mem_append, List.mem_filter, decide_eq_true_iff]
  apart drop add h p hadd hdrop := by
    have htakes := takesOut_manualRowsWithout h
    unfold manualRowsWithout at h
    simp only [Option.bind_eq_bind, Option.bind_eq_some_iff] at h
    obtain ⟨targets, htargets, rows, hrows, heq⟩ := h
    cases heq
    obtain ⟨row, hrow, hp⟩ := List.mem_flatMap.mp hdrop
    obtain ⟨raw, -, hraw⟩ := exists_of_mem_mapM hrows hrow
    have hoverlaps := overlaps_of_mem_manualRowWithout hraw hp
    rw [cover_of_mapM_parse htargets] at hoverlaps
    -- what is added covers nothing of the ranges
    have hcover : IPv4.textCover [p] ⊆ IPv4.textCover (rows.flatMap Prod.snd) := by
      rintro a ⟨q, hq, n, hn, ha⟩
      obtain rfl := List.mem_singleton.mp hq
      exact ⟨q, hadd, n, hn, ha⟩
    rw [htakes.added] at hcover
    exact hoverlaps (Set.disjoint_left.mpr fun a ha => (hcover ha).2)

/-! ### The plan depends on the manual addresses -/

theorem mergeSplitList_congr_manual {manual manual' : List IPv4Network} (h : cover manual = cover manual')
    (sources : List SourceContribution) (exclusions : List IPv4Network) :
    mergeSplitList manual sources exclusions = mergeSplitList manual' sources exclusions := by
  have hcollapse : collapse manual = collapse manual' := by
    refine (canonical_collapse _).eq_of_cover_eq (canonical_collapse _) ?_
    rw [cover_collapse, cover_collapse, h]
  simp only [mergeSplitList, collectBuckets, perSource, hcollapse]

/-- **The plan depends only on the addresses of the manual set.** -/
theorem planOf_congr_manual {manual manual' : List Text}
    (h : IPv4.textCover manual = IPv4.textCover manual') (sources : List SplitSource)
    (stored : Text → List Text) (exclusions current : List Text) :
    planOf sources stored manual exclusions current = planOf sources stored manual' exclusions current := by
  rw [← cover_toNetworks, ← cover_toNetworks] at h
  simp only [planOf, mergeSplitList_congr_manual h]

theorem planOf_congr_stored {sources : List SplitSource} {stored stored' : Text → List Text}
    (h : ∀ source ∈ sources, stored source.slug = stored' source.slug) (manual exclusions current : List Text) :
    planOf sources stored manual exclusions current = planOf sources stored' manual exclusions current := by
  have hmap : (sources.filter SplitSource.takesPart).mapM (contribution stored) =
      (sources.filter SplitSource.takesPart).mapM (contribution stored') := by
    refine mapM_congr fun source hsource => ?_
    rw [contribution, contribution, h source (List.mem_filter.mp hsource).1]
  simp only [planOf, hmap]

theorem exists_prefixes_of_planOf {sources : List SplitSource} {stored : Text → List Text}
    {manual exclusions current : List Text} {plan : MergePlan}
    (h : planOf sources stored manual exclusions current = .ok plan) :
    ∃ networks : List IPv4Network, plan.prefixes = networks.map IPv4.text := by
  dsimp only [planOf] at h
  cases hmap : (sources.filter SplitSource.takesPart).mapM (contribution stored) with
  | error e =>
    rw [hmap] at h
    cases h
  | ok contributions =>
    rw [hmap] at h
    obtain ⟨report, merged, hmerge, hprefixes⟩ :=
      mergeSplitList_prefixes (toNetworks manual) contributions (toNetworks exclusions)
    simp only [Except.bind, bind, hmerge] at h
    cases h
    exact ⟨collapse merged, hprefixes⟩

theorem routesPart_iff {networks : List IPv4Network} {target : IPv4Network} :
    routesPart (networks.map IPv4.text) target = true ↔
      ¬ Disjoint (IPv4.textCover (networks.map IPv4.text)) target.addresses := by
  rw [routesPart, List.any_map, List.any_eq_true, IPv4.textCover_map_text, Set.not_disjoint_iff]
  constructor
  · rintro ⟨n, hn, hoverlaps⟩
    rw [Function.comp_apply, IPv4.parse_text, Option.any_some, overlaps_iff, Set.not_disjoint_iff] at hoverlaps
    obtain ⟨a, ha, hat⟩ := hoverlaps
    exact ⟨a, ⟨n, hn, ha⟩, hat⟩
  · rintro ⟨a, ⟨n, hn, ha⟩, hat⟩
    refine ⟨n, hn, ?_⟩
    rw [Function.comp_apply, IPv4.parse_text, Option.any_some, overlaps_iff, Set.not_disjoint_iff]
    exact ⟨a, ha, hat⟩

/-! ### The answer of the dry run -/

variable {p : Text} {s : SplitState} {drop add : List Text}

/-- The plan of the tables after `remove_manual_many` has taken the rows of the range out. -/
def planAfterRemoval (p : Text) (s : SplitState) : Except SplitError MergePlan :=
  match manualRowsWithout s.tables.manualPrefixes [p] with
  | none => throw .valueError
  | some (drop, add) =>
    let tables := addManualPrefixes add (removeManualPrefixes drop s.tables)
    planOf tables.sources tables.prefixesFor tables.manualPrefixes tables.exclusions (readList s.file)

/-- The plan for any manual set that covers what is stored without the range. -/
def MergesWithout (p : Text) (s : SplitState) (plan : MergePlan) : Prop :=
  ∀ rows, IPv4.textCover rows = IPv4.textCover s.tables.manualPrefixes \ IPv4.textCover [p] →
    buildPlanWith rows s = .ok plan

/-- The plan routes no address of the range. -/
def RoutesNone (p : Text) (plan : MergePlan) : Prop :=
  Disjoint (IPv4.textCover plan.prefixes) (IPv4.textCover [p])

theorem ownersOrFeed_ne_nil (owners : List Text) : ownersOrFeed owners ≠ [] := by
  cases owners with
  | nil => exact List.cons_ne_nil _ _
  | cons owner owners => exact List.cons_ne_nil _ _

theorem feedOrigins_eq_nil_iff (hrows : manualRowsWithout s.tables.manualPrefixes [p] = some (drop, add)) :
    feedOrigins p s = .ok [] ↔ ∃ plan,
      buildPlanWith (s.tables.manualPrefixes.filter (· ∉ drop) ++ add) s = .ok plan ∧ RoutesNone p plan := by
  have hdefined := isSome_manualRowsWithout.mp (Option.isSome_of_eq_some hrows)
  obtain ⟨target, htarget⟩ := Option.isSome_iff_exists.mp (hdefined.1 p List.mem_cons_self)
  have hcover : IPv4.textCover [p] = target.addresses := by
    ext a
    rw [mem_textCover_singleton, htarget]
    simp
  unfold feedOrigins
  rw [htarget, hrows]
  cases hplan : buildPlanWith (s.tables.manualPrefixes.filter (· ∉ drop) ++ add) s with
  | error e =>
    dsimp only
    rw [hplan]
    constructor
    · intro h
      cases h
    · rintro ⟨plan, h, -⟩
      cases h
  | ok plan =>
    dsimp only
    rw [hplan]
    obtain ⟨networks, hnetworks⟩ := exists_prefixes_of_planOf hplan
    have hroutes : routesPart plan.prefixes target = true ↔ ¬ RoutesNone p plan := by
      rw [RoutesNone, hcover, hnetworks, routesPart_iff]
    change answerOf p target s.tables plan = _ ↔ _
    unfold answerOf
    by_cases hpart : routesPart plan.prefixes target = true
    · rw [if_pos hpart]
      constructor
      · intro h
        cases howners : resolveOrigin p (liveContributions s.tables) with
        | none =>
          rw [howners] at h
          cases h
        | some owners =>
          rw [howners] at h
          exact absurd (Except.ok.inj h) (ownersOrFeed_ne_nil owners)
      · rintro ⟨plan', h, hnone⟩
        cases h
        exact absurd hnone (hroutes.mp hpart)
    · rw [if_neg hpart]
      exact ⟨fun _ => ⟨plan, rfl, not_not.mp fun h => hpart (hroutes.mpr h)⟩, fun _ => rfl⟩

/-- What the dry run says about the edit. -/
structure AnswersForTheEdit (p : Text) (s : SplitState) : Prop where
  merged : (manualRowsWithout s.tables.manualPrefixes [p]).isSome →
    (feedOrigins p s = .ok [] ↔ ∃ plan, MergesWithout p s plan ∧ RoutesNone p plan)
  edited : (∀ source ∈ s.tables.sources, source.slug ≠ MANUAL_ORIGIN) →
    (feedOrigins p s = .ok [] ↔ ∃ plan, planAfterRemoval p s = .ok plan ∧ RoutesNone p plan)

theorem planAfterRemoval_eq (hrows : manualRowsWithout s.tables.manualPrefixes [p] = some (drop, add))
    (hreserved : ∀ source ∈ s.tables.sources, source.slug ≠ MANUAL_ORIGIN) :
    planAfterRemoval p s = buildPlanWith (s.tables.manualPrefixes.filter (· ∉ drop) ++ add) s := by
  have hcover : IPv4.textCover (addManualPrefixes add (removeManualPrefixes drop s.tables)).manualPrefixes =
      IPv4.textCover (s.tables.manualPrefixes.filter (· ∉ drop) ++ add) := by
    rw [((removesExactly_manualRowsWithout _ _).exact drop add hrows)]
    refine (takesOut_manualRowsWithout hrows).textCover fun q => ?_
    rw [manualPrefixes, addManualPrefixes, mem_prefixesFor_insertPrefixes]
    exact or_congr_left mem_manualPrefixes_removeManualPrefixes
  unfold planAfterRemoval
  rw [hrows]
  refine (planOf_congr_manual hcover _ _ _ _).trans (planOf_congr_stored (fun source hsource => ?_) _ _ _)
  have hne := hreserved source hsource
  rw [addManualPrefixes, prefixesFor_insertPrefixes_of_ne hne, prefixesFor_removeManualPrefixes_of_ne hne]

theorem answersForTheEdit (p : Text) (s : SplitState) : AnswersForTheEdit p s := by
  cases hrows : manualRowsWithout s.tables.manualPrefixes [p] with
  | none =>
    have hraises : feedOrigins p s = .error .valueError := by
      unfold feedOrigins
      rw [hrows]
      cases IPv4.parse false p <;> rfl
    refine ⟨fun h => ?_, fun _ => ⟨fun h => ?_, ?_⟩⟩
    · rw [hrows] at h
      cases h
    · rw [hraises] at h
      cases h
    · rintro ⟨plan, hplan, -⟩
      unfold planAfterRemoval at hplan
      rw [hrows] at hplan
      cases hplan
  | some rows =>
    obtain ⟨drop, add⟩ := rows
    have hexact := (removesExactly_manualRowsWithout s.tables.manualPrefixes [p]).exact drop add hrows
    refine ⟨fun _ => ?_, fun hreserved => ?_⟩
    · rw [feedOrigins_eq_nil_iff hrows]
      constructor
      · rintro ⟨plan, hplan, hnone⟩
        exact ⟨plan, fun rows' hrows' =>
          (planOf_congr_manual (hrows'.trans hexact.symm) _ _ _ _).trans hplan, hnone⟩
      · rintro ⟨plan, hplan, hnone⟩
        exact ⟨plan, hplan _ hexact, hnone⟩
    · rw [feedOrigins_eq_nil_iff hrows, planAfterRemoval_eq hrows hreserved]

/-- **Removal is exact, and the dry run answers for it.** -/
theorem manual_removal_exact : (∀ manual ranges, RemovesExactly manual ranges) ∧
    ∀ p s, AnswersForTheEdit p s :=
  ⟨removesExactly_manualRowsWithout, answersForTheEdit⟩

/-- A row around a range is split, one inside it goes, and one beside it stays. -/
example : manualRowsWithout ["8.8.8.0/24".toList, "8.8.8.77/26".toList, "9.9.9.9".toList] ["8.8.8.64/26".toList] =
    some (["8.8.8.0/24".toList, "8.8.8.77/26".toList], ["8.8.8.0/26".toList, "8.8.8.128/25".toList]) := by
  decide +kernel

end VpnBot.Warp
