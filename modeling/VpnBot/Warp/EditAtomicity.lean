import VpnBot.Warp.Feeds

/-!
# When an operator edit is atomic

An edit writes the tables before it applies the list, and nothing undoes the write when the apply
raises.  `EditStep` says what an edit does to the tables before the apply; `ends_edit` connects it
to the methods of the service, and `editIsAtomic_iff` says when a raising edit leaves the manual
prefixes and the exclusions as they were: when it changes neither, or when the list merged from the
edited tables can be applied (`CanApply`).
-/

namespace VpnBot.Warp

open Py Sys FeedTables

/-! ### Edits and their table part -/

/-- The operator edits of the split list. -/
inductive Edit
  | addManual (tokens : List Text)
  | removeManualMany (prefixes : List Text)
  | excludePrefix (p : Text)
  | unexcludePrefix (p : Text)
  | migrateManualIntoFeeds

/-- The edits as the service runs them, without what they return. -/
def Edit.run (manager : SplitManager) (host : Host) : Edit → SplitM Unit
  | .addManual tokens => (fun _ => ()) <$> VpnBot.Warp.addManual manager host tokens
  | .removeManualMany ps => (fun _ => ()) <$> VpnBot.Warp.removeManualMany manager host ps
  | .excludePrefix p => (fun _ => ()) <$> VpnBot.Warp.excludePrefix manager host p
  | .unexcludePrefix p => (fun _ => ()) <$> VpnBot.Warp.unexcludePrefix manager host p
  | .migrateManualIntoFeeds => (fun _ => ()) <$> VpnBot.Warp.migrateManualIntoFeeds manager host

/-- What an edit does before the apply: it raises, it returns, or it goes on to the apply; in each
case with the tables it has written. -/
inductive EditStep
  | raises (tables : FeedTables)
  | returns (tables : FeedTables)
  | applies (tables : FeedTables)

/-- The table part of an edit. -/
def Edit.step (manager : SplitManager) (host : Host) (s : SplitState) : Edit → EditStep
  | .addManual tokens =>
    let tables := adopt s.file s.tables
    let accepted := (processAddTokens manager host (host.probe <|> s.endpointIp) tokens
      (tables.manualPrefixes ++ readList s.file)).2
    if accepted.isEmpty then .returns tables else .applies (tables.addManualPrefixes accepted)
  | .removeManualMany ps =>
    let tables := adopt s.file s.tables
    match manualRowsWithout tables.manualPrefixes ps with
    | none => .raises tables
    | some (drop, add) => .applies ((tables.removeManualPrefixes drop).addManualPrefixes add)
  | .excludePrefix p => .applies (((adopt s.file s.tables).addExclusion p).removeManualPrefixes [p])
  | .unexcludePrefix p => .applies (s.tables.removeExclusion p)
  | .migrateManualIntoFeeds =>
    let tables := adopt s.file s.tables
    match redundantRows (coveredNetworks tables) tables.manualPrefixes with
    | none => .raises tables
    | some redundant => .applies (tables.removeManualPrefixes redundant)

/-! ### The apply after an edit -/

/-- The contributions of the sources that take part. -/
def contributionsOf (tables : FeedTables) : List SourceContribution :=
  (tables.sources.filter SplitSource.takesPart).map fun s =>
    ⟨s.slug, s.mode, toNetworks (tables.prefixesFor s.slug), s.scopeSlug⟩

def mergedList (tables : FeedTables) : List Text :=
  ((mergeSplitList (toNetworks tables.manualPrefixes) (contributionsOf tables)
    (toNetworks tables.exclusions)).map MergeReport.prefixes).getD []

/-- Every source that takes part has stored prefixes. -/
def AllCached (tables : FeedTables) : Prop :=
  ∀ source ∈ tables.sources, source.takesPart = true → tables.prefixesFor source.slug ≠ []

/-- The list merged from the tables can be applied: no operand is missing, the list is not empty,
not above the cap and touches no guard, and it stands in the file already or the helper exits with
zero on it. -/
def CanApply (manager : SplitManager) (host : Host) (s : SplitState) (tables : FeedTables) : Prop :=
  AllCached tables ∧ Accepted manager host s (mergedList tables)

/-- Two tables store the same manual prefixes and the same exclusions. -/
def SameEdits (tables tables' : FeedTables) : Prop :=
  tables.manualPrefixes = tables'.manualPrefixes ∧ tables.exclusions = tables'.exclusions

/-- If the edit raises, the manual prefixes and the exclusions are what they were. -/
def EditIsAtomic (manager : SplitManager) (host : Host) (edit : Edit) (s : SplitState) : Prop :=
  ∀ e s', edit.run manager host s = .error e s' → SameEdits s'.tables s.tables

/-- The edit does not come to the apply or changes neither set, or its list can be applied. -/
def EditIsHarmless (manager : SplitManager) (host : Host) (edit : Edit) (s : SplitState) : Prop :=
  match edit.step manager host s with
  | .raises tables => SameEdits tables s.tables
  | .returns _ => True
  | .applies tables => SameEdits tables s.tables ∨ CanApply manager host s tables

theorem mapM_contribution (stored : Text → List Text) (sources : List SplitSource) :
    (∃ source ∈ sources, stored source.slug = [] ∧
      sources.mapM (contribution stored) = .error (.noCache source.slug)) ∨
    ((∀ source ∈ sources, stored source.slug ≠ []) ∧
      sources.mapM (contribution stored) = .ok (sources.map fun s =>
        ⟨s.slug, s.mode, toNetworks (stored s.slug), s.scopeSlug⟩)) := by
  induction sources with
  | nil => exact Or.inr ⟨by simp, rfl⟩
  | cons s sources ih =>
    rw [List.mapM_cons]
    by_cases hs : stored s.slug = []
    · refine Or.inl ⟨s, List.mem_cons_self, hs, ?_⟩
      rw [contribution, if_pos (by rw [hs]; rfl)]
      rfl
    · rw [contribution, if_neg (by simpa using hs)]
      rcases ih with ⟨t, ht, hn, he⟩ | ⟨hall, he⟩
      · exact Or.inl ⟨t, List.mem_cons_of_mem _ ht, hn, by rw [he]; rfl⟩
      · exact Or.inr ⟨List.forall_mem_cons.2 ⟨hs, hall⟩, by rw [he]; rfl⟩

theorem ends_recomputeForApply (s : SplitState) :
    Program.Ends recomputeForApply
      (fun l s' => s' = s ∧ AllCached s.tables ∧ l = mergedList s.tables)
      (fun _ s' => s' = s ∧ ¬ AllCached s.tables) s := by
  have hall : AllCached s.tables ↔
      ∀ source ∈ s.tables.sources.filter SplitSource.takesPart,
        s.tables.prefixesFor source.slug ≠ [] := by
    simp [AllCached]
  obtain ⟨report, -, hr, -⟩ := mergeSplitList_prefixes (toNetworks s.tables.manualPrefixes)
    (contributionsOf s.tables) (toNetworks s.tables.exclusions)
  simp only [recomputeForApply, buildPlan, Program.ends_bind, Program.ends_ofExcept,
    Program.ends_pure]
  rcases mapM_contribution s.tables.prefixesFor (s.tables.sources.filter SplitSource.takesPart) with
    ⟨source, hs, hn, he⟩ | ⟨hc, he⟩
  · have hplan : planOf s.tables.sources s.tables.prefixesFor s.tables.manualPrefixes
        s.tables.exclusions (readList s.file) = .error (.noCache source.slug) := by
      rw [planOf, he]
      rfl
    rw [hplan]
    exact ⟨fun _ h => (by cases h), fun _ _ => ⟨trivial, fun h => hall.1 h source hs hn⟩⟩
  · have hplan : planOf s.tables.sources s.tables.prefixesFor s.tables.manualPrefixes
        s.tables.exclusions (readList s.file) =
        .ok ⟨report.prefixes, report, readList s.file,
          subtractPairs (s.tables.sources.filter SplitSource.takesPart)⟩ := by
      rw [planOf_of_contributions he, ← contributionsOf, hr]
      rfl
    rw [hplan]
    refine ⟨fun a h => ?_, fun _ h => by cases h⟩
    cases h
    exact ⟨trivial, hall.2 hc, by rw [mergedList, hr]; rfl⟩

theorem ends_applyComputed (manager : SplitManager) (host : Host) (s : SplitState) :
    Program.Ends (applyComputed manager host recomputeForApply)
      (fun _ s' => s'.tables = s.tables ∧ CanApply manager host s s.tables)
      (fun _ s' => s'.tables = s.tables ∧ ¬ CanApply manager host s s.tables) s := by
  rw [applyComputed, Program.ends_bind]
  refine (ends_recomputeForApply s).mono ?_ ?_
  · rintro l s' ⟨rfl, hc, rfl⟩
    refine (ends_applyLocked manager host _ s').mono ?_ ?_
    · rintro - s'' ⟨ht, ha⟩
      exact ⟨ht, hc, ha⟩
    · rintro - s'' ⟨ht, ha⟩
      exact ⟨ht, fun h => ha h.2⟩
  · rintro - s' ⟨rfl, hc⟩
    exact ⟨rfl, fun h => hc h.1⟩

theorem canApply_congr {manager : SplitManager} {host : Host} {s s' : SplitState}
    (tables : FeedTables) (hf : s'.file = s.file)
    (he : (host.probe <|> s'.endpointIp) = (host.probe <|> s.endpointIp)) :
    CanApply manager host s' tables ↔ CanApply manager host s tables := by
  have hacc : ∀ l, Accepted manager host s' l ↔ Accepted manager host s l := fun l =>
    ⟨fun h => ⟨h.nonempty, he ▸ h.checked, hf ▸ h.written⟩,
      fun h => ⟨h.nonempty, he ▸ h.checked, hf ▸ h.written⟩⟩
  rw [CanApply, CanApply, hacc]

/-! ### The edits and their table part -/

/-- A program ends as the step says: with the tables of the step, and after an apply with a value
exactly when the list can be applied. -/
def EndsAs (manager : SplitManager) (host : Host) (s : SplitState) (p : SplitM Unit) :
    EditStep → Prop
  | .raises tables => Program.Ends p (fun _ _ => False) (fun _ s' => s'.tables = tables) s
  | .returns tables => Program.Ends p (fun _ s' => s'.tables = tables) (fun _ _ => False) s
  | .applies tables =>
    Program.Ends p (fun _ s' => s'.tables = tables ∧ CanApply manager host s tables)
      (fun _ s' => s'.tables = tables ∧ ¬ CanApply manager host s tables) s

theorem ends_applyEdited (manager : SplitManager) (host : Host) {s s' : SplitState}
    (hf : s'.file = s.file)
    (he : (host.probe <|> s'.endpointIp) = (host.probe <|> s.endpointIp)) :
    Program.Ends (applyComputed manager host recomputeForApply)
      (fun _ s'' => s''.tables = s'.tables ∧ CanApply manager host s s'.tables)
      (fun _ s'' => s''.tables = s'.tables ∧ ¬ CanApply manager host s s'.tables) s' := by
  refine (ends_applyComputed manager host s').mono ?_ ?_
  · rintro - s'' ⟨ht, ha⟩
    exact ⟨ht, (canApply_congr _ hf he).1 ha⟩
  · rintro - s'' ⟨ht, ha⟩
    exact ⟨ht, fun h => ha ((canApply_congr _ hf he).2 h)⟩

/-- **Every edit writes the tables of its table part, and nothing takes them back.** -/
theorem ends_edit (manager : SplitManager) (host : Host) (edit : Edit) (s : SplitState) :
    EndsAs manager host s (edit.run manager host) (edit.step manager host s) := by
  have hprobe : (host.probe <|> (host.probe <|> s.endpointIp)) = (host.probe <|> s.endpointIp) := by
    cases host.probe <;> rfl
  cases edit with
  | addManual tokens =>
    simp only [Edit.step]
    split_ifs with hnone
    · simp only [EndsAs, Edit.run, addManual, ensureManualAdopted, refreshEndpoint,
        Program.ends_map, Program.ends_bind, Program.ends_modify, Program.ends_get, if_pos hnone,
        Program.ends_pure]
    · simp only [EndsAs, Edit.run, addManual, ensureManualAdopted, refreshEndpoint, change,
        Program.ends_map, Program.ends_bind, Program.ends_modify, Program.ends_get, if_neg hnone]
      exact ends_applyEdited manager host rfl hprobe
  | removeManualMany ps =>
    simp only [Edit.step]
    cases hrows : manualRowsWithout (adopt s.file s.tables).manualPrefixes ps with
    | none =>
      simp only [EndsAs, Edit.run, removeManualMany, ensureManualAdopted, Program.ends_map,
        Program.ends_bind, Program.ends_modify, Program.ends_get, hrows, Program.ends_throw]
    | some rows =>
      simp only [EndsAs, Edit.run, removeManualMany, ensureManualAdopted, change, Program.ends_map,
        Program.ends_bind, Program.ends_modify, Program.ends_get, hrows]
      exact ends_applyEdited manager host rfl rfl
  | excludePrefix p =>
    simp only [Edit.step, EndsAs, Edit.run, excludePrefix, ensureManualAdopted, change,
      Program.ends_map, Program.ends_bind, Program.ends_modify]
    exact ends_applyEdited manager host rfl rfl
  | unexcludePrefix p =>
    simp only [Edit.step, EndsAs, Edit.run, unexcludePrefix, change, Program.ends_map,
      Program.ends_bind, Program.ends_modify]
    exact ends_applyEdited manager host rfl rfl
  | migrateManualIntoFeeds =>
    simp only [Edit.step]
    cases hrows : redundantRows (coveredNetworks (adopt s.file s.tables))
        (adopt s.file s.tables).manualPrefixes with
    | none =>
      simp only [EndsAs, Edit.run, migrateManualIntoFeeds, ensureManualAdopted, Program.ends_map,
        Program.ends_bind, Program.ends_modify, Program.ends_get, hrows, Program.ends_throw]
    | some redundant =>
      simp only [EndsAs, Edit.run, migrateManualIntoFeeds, ensureManualAdopted, change,
        Program.ends_map, Program.ends_bind, Program.ends_modify, Program.ends_get, hrows]
      exact ends_applyEdited manager host rfl rfl

/-- **An edit is atomic exactly when it is harmless.** -/
theorem editIsAtomic_iff (manager : SplitManager) (host : Host) (edit : Edit) (s : SplitState) :
    EditIsAtomic manager host edit s ↔ EditIsHarmless manager host edit s := by
  have hends := ends_edit manager host edit s
  unfold EditIsAtomic EditIsHarmless
  cases hstep : edit.step manager host s with
  | raises tables =>
    rw [hstep, EndsAs, Program.ends_iff] at hends
    simp only
    cases hrun : edit.run manager host s with
    | ok a s' => exact absurd (hends.1 a s' hrun) not_false
    | error e s' =>
      have ht := hends.2 e s' hrun
      constructor
      · intro h
        exact ht ▸ h e s' rfl
      · rintro h e' s'' he
        cases he
        rwa [ht]
  | returns tables =>
    rw [hstep, EndsAs, Program.ends_iff] at hends
    exact ⟨fun _ => trivial, fun _ e s' he => absurd (hends.2 e s' he) not_false⟩
  | applies tables =>
    rw [hstep, EndsAs, Program.ends_iff] at hends
    simp only
    cases hrun : edit.run manager host s with
    | ok a s' => exact ⟨fun _ => Or.inr (hends.1 a s' hrun).2, by rintro - _ _ ⟨⟩⟩
    | error e s' =>
      obtain ⟨ht, hno⟩ := hends.2 e s' hrun
      constructor
      · intro h
        exact Or.inl (ht ▸ h e s' rfl)
      · rintro (h | h) e' s'' he
        · cases he
          rwa [ht]
        · exact absurd h hno

/-- `8.8.8.0/24` as text. -/
def onlyPrefix : Text := "8.8.8.0/24".toList

/-- One hand-typed prefix is routed, and the only source is disabled. -/
def onlyPrefixState : SplitState where
  tables :=
    { sources := [⟨"telegram-cidr".toList, .add, none, false, true, 0⟩]
      prefixes := [(MANUAL_ORIGIN, onlyPrefix)]
      exclusionRows := []
      baselines := Dict.empty
      metaRows := Dict.singleton ADOPTED_META_KEY ['1'] }
  file := some (renderList [onlyPrefix])
  endpointIp := none

/-- Excluding the only routed prefix is refused, and the exclusion stays. -/
theorem not_editIsAtomic_onlyPrefix :
    ¬ EditIsAtomic defaultManager obedientHost (.excludePrefix onlyPrefix) onlyPrefixState := by
  intro h
  have hrun : (Edit.excludePrefix onlyPrefix).run defaultManager obedientHost onlyPrefixState =
      .error .emptyList
        { onlyPrefixState with
          tables := (onlyPrefixState.tables.addExclusion onlyPrefix).removeManualPrefixes
            [onlyPrefix] } := rfl
  have hexclusions : [onlyPrefix] = [] := (h _ _ hrun).2
  exact absurd hexclusions (List.cons_ne_nil _ _)

end VpnBot.Warp
