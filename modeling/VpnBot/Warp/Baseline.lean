import VpnBot.Warp.RunEnds

/-!
# What becomes the baseline of a source

A run measures each source against the coverage of its last applied contribution.  The baseline is
captured from everything that is stored, after an apply and also when a run finds a list file that was
changed from outside; a contribution is stored as soon as it is fetched.  `CapturesApplied` says when the
two agree, `BaselineInv` is the invariant of those runs, and `baseline_used` the result;
`not_baseline_used` has a contribution that is declined and becomes the baseline when somebody else
writes the file.
-/

namespace VpnBot.Warp

open Py Sys FeedTables

variable {service : FeedService} {x x' : FeedSystem} {s s' : ServiceState} {input : RunInput}
  {tables tables' : FeedTables} {used used' : List (Text × List Text)}

/-! ### The property and the condition -/

/-- The baseline of each source is the coverage of a contribution of the source that took part in a list
that was applied. -/
def BaselineUsed (x : FeedSystem) : Prop :=
  ∀ source ∈ x.service.tables.sources, ∀ coverage,
    x.service.tables.baselines.get? source.slug = some coverage →
      ∃ prefixes, (source.slug, prefixes) ∈ x.used ∧ coverage = coverageOf prefixes

/-- A run fetches only sources that take part in the merge, and if it finds the list file changed, no
stored contribution is still to be applied. -/
def CapturesApplied (x : FeedSystem) : ServiceAction → Prop
  | .run _ => (∀ source ∈ x.service.tables.sources,
      source.enabled = true → source.takesPart = true) ∧
      (FileChanged x.service → ∀ source ∈ x.service.tables.sources,
        x.service.tables.prefixesFor source.slug ≠ [] →
          (source.slug, x.service.tables.prefixesFor source.slug) ∈ x.used)
  | _ => True

instance (x : FeedSystem) (a : ServiceAction) : Decidable (CapturesApplied x a) := by
  cases a with
  | run input => exact inferInstanceAs (Decidable (_ ∧ _))
  | approve host | reject | edit e host | write file => exact inferInstanceAs (Decidable True)

/-- Nothing has been fetched, and the slugs are such as `validate_slug` lets through. -/
structure Unfetched (tables : FeedTables) : Prop where
  slugs : ∀ source ∈ tables.sources, source.slug ≠ LIST_SCOPE ∧ source.slug ≠ MANUAL_ORIGIN
  stored : ∀ origin, origin ≠ MANUAL_ORIGIN → tables.prefixesFor origin = []
  baselines : tables.baselines = Dict.empty

/-! ### The invariant -/

/-- The slugs of the sources that take part in the merge. -/
def takingSlugs (tables : FeedTables) : List Text :=
  (tables.sources.filter SplitSource.takesPart).map SplitSource.slug

/-- A slug that is not taken. -/
def IsOrdinary (origin : Text) : Prop := origin ≠ LIST_SCOPE ∧ origin ≠ MANUAL_ORIGIN

/-- Every baseline of an ordinary origin is that of a contribution that was used; and what is stored
belongs to sources that take part. -/
structure BaselineInv (tables : FeedTables) (used : List (Text × List Text)) : Prop where
  slugs : ∀ source ∈ tables.sources, IsOrdinary source.slug
  captured : ∀ origin, IsOrdinary origin → ∀ coverage,
    tables.baselines.get? origin = some coverage →
      ∃ prefixes, (origin, prefixes) ∈ used ∧ coverage = coverageOf prefixes
  stored : ∀ origin, IsOrdinary origin → tables.prefixesFor origin ≠ [] →
    origin ∈ takingSlugs tables

namespace BaselineInv

theorem mono (h : BaselineInv tables used) (hused : ∀ c ∈ used, c ∈ used') :
    BaselineInv tables used' := by
  refine ⟨h.slugs, fun origin ho coverage hc => ?_, h.stored⟩
  obtain ⟨prefixes, hmem, hcoverage⟩ := h.captured origin ho coverage hc
  exact ⟨prefixes, hused _ hmem, hcoverage⟩

theorem congr (h : BaselineInv tables used) (hsources : tables'.sources = tables.sources)
    (hstored : ∀ origin, IsOrdinary origin → tables'.prefixesFor origin = tables.prefixesFor origin)
    (hbaselines : tables'.baselines = tables.baselines) : BaselineInv tables' used := by
  refine ⟨fun source hsource => h.slugs source (hsources ▸ hsource), fun origin ho => ?_,
    fun origin ho hne => ?_⟩
  · rw [hbaselines]
    exact h.captured origin ho
  · rw [hstored origin ho] at hne
    unfold takingSlugs
    rw [hsources]
    exact h.stored origin ho hne

theorem sameFeeds (h : BaselineInv tables used) (hsame : SameFeeds tables tables') :
    BaselineInv tables' used :=
  h.congr hsame.sources (fun origin ho => hsame.stored origin ho.2) hsame.baselines

end BaselineInv

/-! ### Capturing -/

theorem get?_foldl_set_of (f : Text → Coverage) (origins : List Text) (d : Dict Text Coverage)
    {origin : Text} {coverage : Coverage}
    (h : (origins.foldl (fun d o => d.set o (f o)) d).get? origin = some coverage) :
    (origin ∈ origins ∧ coverage = f origin) ∨ d.get? origin = some coverage := by
  induction origins generalizing d with
  | nil => exact Or.inr h
  | cons o origins ih =>
    rw [List.foldl_cons] at h
    rcases ih _ h with ⟨hmem, hcoverage⟩ | hset
    · exact Or.inl ⟨List.mem_cons_of_mem _ hmem, hcoverage⟩
    · rw [Dict.get?_set] at hset
      split_ifs at hset with ho
      · exact Or.inl ⟨ho ▸ List.mem_cons_self, ho ▸ (Option.some.inj hset).symm⟩
      · exact Or.inr hset

theorem get?_coverages {current : List Text} {origin : Text} (ho : IsOrdinary origin)
    {coverage : Coverage} (h : (coverages tables current).get? origin = some coverage) :
    tables.prefixesFor origin ≠ [] ∧ coverage = coverageOf (tables.prefixesFor origin) := by
  rcases get?_foldl_set_of _ _ _ h with ⟨hmem, hcoverage⟩ | hlist
  · refine ⟨?_, hcoverage⟩
    obtain ⟨row, hrow, rfl⟩ := List.mem_map.1 (List.mem_dedup.1 hmem)
    exact List.ne_nil_of_mem (mem_prefixesFor.2 hrow)
  · rw [Dict.get?_singleton, if_neg ho.1] at hlist
    cases hlist

theorem BaselineInv.capture (h : BaselineInv s.tables used)
    (hused : ∀ origin, IsOrdinary origin → s.tables.prefixesFor origin ≠ [] →
      (origin, s.tables.prefixesFor origin) ∈ used) :
    BaselineInv (captureBaseline s).tables used := by
  unfold captureBaseline
  dsimp only
  split_ifs with hempty
  · exact h
  · refine ⟨h.slugs, fun origin ho coverage hcoverage => ?_, h.stored⟩
    obtain ⟨hne, rfl⟩ := get?_coverages ho hcoverage
    exact ⟨_, hused origin ho hne, rfl⟩

theorem mem_takingPart {origin : Text} (h : origin ∈ takingSlugs tables) :
    (origin, tables.prefixesFor origin) ∈ takingPart tables := by
  obtain ⟨source, hsource, rfl⟩ := List.mem_map.1 h
  exact List.mem_map.2 ⟨source, hsource, rfl⟩

theorem sources_captureBaseline (s : ServiceState) :
    (captureBaseline s).tables.sources = s.tables.sources := by
  unfold captureBaseline
  dsimp only
  split_ifs <;> rfl

theorem prefixes_captureBaseline (s : ServiceState) :
    (captureBaseline s).tables.prefixes = s.tables.prefixes := by
  unfold captureBaseline
  dsimp only
  split_ifs <;> rfl

theorem takingPart_finished (s : ServiceState) :
    takingPart (finished s).tables = takingPart s.tables := by
  have hsources : (finished s).tables.sources = s.tables.sources := sources_captureBaseline s
  have hprefixes : (finished s).tables.prefixes = s.tables.prefixes := prefixes_captureBaseline s
  unfold takingPart FeedTables.prefixesFor
  rw [hsources, hprefixes]

/-- **An apply keeps the invariant**: everything that is stored took part in the list. -/
theorem BaselineInv.finished (h : BaselineInv s.tables used) :
    BaselineInv (finished s).tables (takingPart (Warp.finished s).tables ++ used) := by
  rw [takingPart_finished]
  have hcaptured : BaselineInv (captureBaseline s).tables (takingPart s.tables ++ used) :=
    (h.mono fun c hc => List.mem_append_right _ hc).capture fun origin ho hne =>
      List.mem_append_left _ (mem_takingPart (h.stored origin ho hne))
  exact hcaptured.congr rfl (fun _ _ => rfl) rfl

/-! ### Fetching -/

theorem takingSlugs_updateSource (slug : Text) (stamp : ℤ) (tables : FeedTables) :
    takingSlugs (updateSource slug (fun s => { s with lastSuccessTs := stamp }) tables) =
      takingSlugs tables := by
  let stampOne (source : SplitSource) : SplitSource :=
    if source.slug = slug then { source with lastSuccessTs := stamp } else source
  have htakes : SplitSource.takesPart ∘ stampOne = SplitSource.takesPart := by
    funext source
    change (stampOne source).takesPart = source.takesPart
    unfold stampOne
    split_ifs <;> rfl
  have hslug : SplitSource.slug ∘ stampOne = SplitSource.slug := by
    funext source
    change (stampOne source).slug = source.slug
    unfold stampOne
    split_ifs <;> rfl
  change ((tables.sources.map stampOne).filter SplitSource.takesPart).map SplitSource.slug = _
  rw [List.filter_map, List.map_map, htakes, hslug]
  rfl

theorem BaselineInv.refreshOne (h : BaselineInv tables used) (fetches : Text → FetchOutcome) (now : ℤ)
    {source : SplitSource} (htaking : source.slug ∈ takingSlugs tables) :
    BaselineInv (refreshOne fetches now tables source) used ∧
      takingSlugs (refreshOne fetches now tables source) = takingSlugs tables := by
  unfold Warp.refreshOne
  cases fetches source.slug with
  | failed => exact ⟨h, rfl⟩
  | published networks =>
    dsimp only
    split_ifs
    · exact ⟨h, rfl⟩
    · have hslugs := takingSlugs_updateSource source.slug now
        (tables.replacePrefixes source.slug (networks.map IPv4.text))
      refine ⟨⟨fun source' hsource' => ?_, h.captured, fun origin ho hne => ?_⟩, hslugs⟩
      · obtain ⟨source'', hmem, rfl⟩ := List.mem_map.1 hsource'
        dsimp only
        split_ifs with hslug
        · exact h.slugs source'' hmem
        · exact h.slugs source'' hmem
      · rw [hslugs]
        by_cases horigin : origin = source.slug
        · exact horigin ▸ htaking
        · have hkept : (tables.replacePrefixes source.slug
              (networks.map IPv4.text)).prefixesFor origin = tables.prefixesFor origin :=
            prefixesFor_replacePrefixes_of_ne horigin
          exact h.stored origin ho (hkept ▸ hne)

theorem BaselineInv.refreshSources (h : BaselineInv tables used) (fetches : Text → FetchOutcome)
    (now : ℤ)
    (htaking : ∀ source ∈ tables.sources, source.enabled = true → source.takesPart = true) :
    BaselineInv (refreshSources fetches now tables) used := by
  have hfold : ∀ (sources : List SplitSource) (t : FeedTables), BaselineInv t used →
      (∀ source ∈ sources, source.slug ∈ takingSlugs t) →
      BaselineInv (sources.foldl (Warp.refreshOne fetches now) t) used := by
    intro sources
    induction sources with
    | nil => exact fun t ht _ => ht
    | cons source sources ih =>
      intro t ht hmem
      obtain ⟨hone, hslugs⟩ := ht.refreshOne fetches now (hmem source List.mem_cons_self)
      exact ih _ hone fun source' hsource' => hslugs ▸ hmem source' (List.mem_cons_of_mem _ hsource')
  refine hfold _ _ h fun source hsource => ?_
  obtain ⟨hmem, henabled⟩ := List.mem_filter.1 hsource
  exact List.mem_map.2 ⟨source, List.mem_filter.2 ⟨hmem, htaking source hmem henabled⟩, rfl⟩

/-- **What a run does before its merge keeps the invariant**, when it captures only what was applied. -/
theorem BaselineInv.refreshed (h : BaselineInv x.service.tables x.used)
    (hcaptures : CapturesApplied x (.run input)) :
    BaselineInv (refreshed input x.service).tables x.used := by
  obtain ⟨htaking, hchanged⟩ := hcaptures
  have hsame : SameFeeds x.service.tables (adopt x.service.file x.service.tables) :=
    .adopt x.service.file
  have hadopted := h.sameFeeds hsame
  have hreconciled : BaselineInv (reconcileBaseline
      (x.service.withTables (adopt x.service.file x.service.tables))).tables x.used := by
    unfold reconcileBaseline
    split_ifs with hfile
    · refine BaselineInv.capture hadopted fun origin ho hne => ?_
      have hkept : (adopt x.service.file x.service.tables).prefixesFor origin =
          x.service.tables.prefixesFor origin := hsame.stored origin ho.2
      obtain ⟨source, hsource, rfl⟩ := List.mem_map.1 (hadopted.stored origin ho hne)
      have hmem : source ∈ x.service.tables.sources := hsame.sources ▸ (List.mem_filter.1 hsource).1
      have hne' : x.service.tables.prefixesFor source.slug ≠ [] := hkept ▸ hne
      exact hkept ▸ hchanged hfile source hmem hne'
    · exact hadopted
  refine hreconciled.refreshSources input.fetches input.now fun source hsource => ?_
  refine htaking source ?_
  unfold reconcileBaseline at hsource
  split_ifs at hsource
  · rw [sources_captureBaseline] at hsource
    exact hsame.sources ▸ hsource
  · exact hsame.sources ▸ hsource

/-! ### Runs of the system -/

theorem BaselineInv.run (h : BaselineInv x.service.tables x.used)
    (hcaptures : CapturesApplied x (.run input)) {result : Option CycleResult}
    (hend : RunEnd service input (Warp.refreshed input x.service) result s'
      (verdictOf service input (Warp.refreshed input x.service))) :
    BaselineInv s'.tables
      (if result.any CycleResult.applies then takingPart s'.tables ++ x.used else x.used) := by
  have hinv := h.refreshed hcaptures
  have happlies : result.any CycleResult.applies = (appliedBy result).isSome := by
    cases result <;> rfl
  rw [happlies]
  have hend' : ∀ t : ServiceState, BaselineInv t.tables x.used →
      ApplyEnd service.manager input.applyHost t (appliedBy result) s' → BaselineInv s'.tables
        (if (appliedBy result).isSome then takingPart s'.tables ++ x.used else x.used) := by
    intro t ht happly
    cases happlied : appliedBy result with
    | none =>
      rw [happlied] at happly
      rw [happly.1]
      exact ht
    | some outcome =>
      rw [happlied] at happly
      obtain ⟨-, t', htables, rfl⟩ := happly
      exact BaselineInv.finished (htables ▸ ht)
  cases hverdict : verdictOf service input (Warp.refreshed input x.service) with
  | stops =>
    rw [hverdict] at hend
    rw [hend.1, hend.2.1]
    exact hinv
  | aggregates plan analysis =>
    rw [hverdict] at hend
    exact hend' (probed input (Warp.refreshed input x.service)) hinv hend.2
  | counts plan analysis =>
    rw [hverdict] at hend
    have hbumped : BaselineInv (bumpStreak analysis.listHash
        (Warp.refreshed input x.service).tables) x.used := hinv.congr rfl (fun _ _ => rfl) rfl
    obtain ⟨-, hend⟩ := hend
    split_ifs at hend with hwaits
    · rw [hend.1, hend.2]
      exact hbumped
    · exact hend' ((probed input (Warp.refreshed input x.service)).withTables _) hbumped hend

/-- **Every call keeps the invariant.** -/
theorem baselineInv_step (a : ServiceAction) (h : BaselineInv x.service.tables x.used)
    (hcaptures : CapturesApplied x a) (hstep : serviceStep service x a = some x') :
    BaselineInv x'.service.tables x'.used := by
  cases a with
  | run input =>
    cases hstep
    exact h.run hcaptures (runEnd_runCycle service input x.service)
  | approve host =>
    cases hstep
    refine (ends_applyPending service host x.service).mono ?_ ?_ |>.result
      (R := fun outcome s' => BaselineInv s'.tables
        (if outcome.isSome then takingPart s'.tables ++ x.used else x.used))
    · rintro - s' ⟨-, -, t, htables, rfl⟩
      exact BaselineInv.finished (htables ▸ h)
    · rintro - s' ⟨htables, -⟩
      exact htables ▸ h
  | reject =>
    cases hstep
    exact h
  | edit e host =>
    cases hstep
    refine (ends_outcome service host e x.service).mono ?_ ?_ |>.result
      (R := fun outcome s' => BaselineInv s'.tables
        (if outcome.any Option.isSome then takingPart s'.tables ++ x.used else x.used))
    · rintro outcome s' ⟨hsame, -⟩
      split_ifs
      · exact (h.sameFeeds hsame).mono fun c hc => List.mem_append_right _ hc
      · exact h.sameFeeds hsame
    · rintro - s' ⟨hsame, -⟩
      exact h.sameFeeds hsame
  | write file =>
    cases hstep
    exact h

/-- **The baseline of a source is always the coverage of a contribution that took part in a list that was
applied**, when every source that is fetched takes part in the merge, and a run that finds the list file
changed finds no stored contribution that is still to be applied. -/
theorem baseline_used {service : FeedService} {s : ServiceState} {actions : List ServiceAction}
    {x : FeedSystem} (hstart : Unfetched s.tables)
    (hcaptures : Allowed (serviceStep service) CapturesApplied (atStart s) actions)
    (hrun : runFrom (serviceStep service) (atStart s) actions = some x) : BaselineUsed x := by
  let inv (x : FeedSystem) : Prop := BaselineInv x.service.tables x.used
  have hstep : ∀ x a x', inv x → CapturesApplied x a → serviceStep service x a = some x' → inv x' :=
    fun _ a _ h hc hs => baselineInv_step a h hc hs
  have hzero : inv (atStart s) := by
    refine ⟨hstart.slugs, fun origin ho coverage hcoverage => ?_, fun origin ho hne => ?_⟩
    · have hempty : s.tables.baselines.get? origin = some coverage := hcoverage
      rw [hstart.baselines, Dict.get?_empty] at hempty
      cases hempty
    · exact absurd (hstart.stored origin ho.2) hne
  have hinv : inv x := invariant_of_allowed hstep hzero hcaptures hrun
  exact fun source hsource coverage hcoverage =>
    hinv.captured source.slug (hinv.slugs source hsource) coverage hcoverage

theorem unfetched_start : Unfetched unfetched.tables := by
  refine ⟨fun source hsource => ?_, fun origin _ => rfl, rfl⟩
  cases List.mem_singleton.1 hsource
  decide

/-- Somebody writes the list file with a text of his own. -/
def writtenByHand : ServiceAction := .write (some "8.8.8.0/24\n".toList)

/-- A list is applied, the file is written by hand, and the next run finds it. -/
def writtenAfterApply : List ServiceAction :=
  [.run (publishedRun [net91, net149]), writtenByHand, .run (publishedRun [net91, net149])]

theorem baseline_used_writtenAfterApply :
    ∃ x, runFrom (serviceStep (autoFeeds 1)) (atStart unfetched) writtenAfterApply = some x ∧
      BaselineUsed x := by
  have hcaptures : Allowed (serviceStep (autoFeeds 1)) CapturesApplied (atStart unfetched)
      writtenAfterApply := by decide +kernel
  have hsome : (runFrom (serviceStep (autoFeeds 1)) (atStart unfetched) writtenAfterApply).isSome :=
    by decide +kernel
  obtain ⟨x, hrun⟩ := Option.isSome_iff_exists.1 hsome
  exact ⟨x, hrun, baseline_used unfetched_start hcaptures hrun⟩

/-- The feed loses most of its addresses, an admin declines the change, and then the file is written by
hand. -/
def writtenAfterDecline : List ServiceAction :=
  [.run (publishedRun [net91, net149]), .run (publishedRun [net91]), .reject, writtenByHand,
    .run (publishedRun [net91])]

/-- **The contribution that was declined becomes the baseline.** -/
theorem not_baseline_used :
    ¬ ∀ (service : FeedService) (s : ServiceState) (actions : List ServiceAction) (x : FeedSystem),
      service.mode = .auto → Unfetched s.tables →
        runFrom (serviceStep service) (atStart s) actions = some x → BaselineUsed x := by
  intro h
  have hread : (runFrom (serviceStep (autoFeeds 1)) (atStart unfetched) writtenAfterDecline).map
      (fun x => x.service.tables.baselines.get? telegram) = some (some ⟨1, 1024⟩) := by
    decide +kernel
  have hpast : (runFrom (serviceStep (autoFeeds 1)) (atStart unfetched) writtenAfterDecline).map
      (fun x => (x.used, x.service.tables.sources.map SplitSource.slug)) =
        some ([(telegram, ["149.154.160.0/20".toList, "91.108.4.0/22".toList])], [telegram]) := by
    decide +kernel
  obtain ⟨x, hrun, hbaseline⟩ := Option.map_eq_some_iff.1 hread
  rw [hrun] at hpast
  obtain ⟨hused, hslugs⟩ := Prod.mk.inj (Option.some.inj hpast)
  obtain ⟨source, hsource, hslug⟩ : ∃ source ∈ x.service.tables.sources, source.slug = telegram := by
    refine List.mem_map.1 ?_
    rw [hslugs]
    exact List.mem_singleton_self telegram
  have hget : x.service.tables.baselines.get? source.slug = some ⟨1, 1024⟩ := by
    rw [hslug]
    exact hbaseline
  obtain ⟨prefixes, hmem, hcoverage⟩ :=
    h (autoFeeds 1) unfetched _ x rfl unfetched_start hrun source hsource _ hget
  rw [hused, hslug] at hmem
  cases (Prod.mk.inj (List.mem_singleton.1 hmem)).2
  have hother : coverageOf ["149.154.160.0/20".toList, "91.108.4.0/22".toList] ≠ ⟨1, 1024⟩ := by
    decide +kernel
  exact hother hcoverage.symm

end VpnBot.Warp
