import VpnBot.Warp.Cycle

/-!
# What the unattended cycle writes

The cycle reads the tables twice, for the analysis and under the lock, and nothing compares the two
lists; and when the helper fails, the cycle hands it the previous list, which nobody has judged.
`MergeInput` is what the merge takes from the tables; `Undisturbed` is the condition on the
statements of other operations under which the second list is the one that was judged:
between the two reads they leave the merged list as it is, and within a read also the rows.
`PutsBackNoOther` is the condition on the helper.  `writesJudged_of_undisturbed` is the result over
all runs, by the invariant `CycleInv`; in `disturbedRun` another task publishes a feed in between.
-/

namespace VpnBot.Warp

open Py FeedTables

/-! ### What the merge reads -/

/-- A source that takes part in the merge, with its stored prefixes. -/
structure Operand where
  slug : Text
  mode : Mode
  scopeSlug : Option Text
  stored : List Text

/-- What the merge reads from the tables. -/
structure MergeInput where
  operands : List Operand
  manual : List Text
  exclusions : List Text

/-- The columns of the sources that take part. -/
def keysOf (sources : List SplitSource) : List (Text × Mode × Option Text) :=
  (sources.filter SplitSource.takesPart).map fun s => (s.slug, s.mode, s.scopeSlug)

/-- The operands among the sources, with the stored prefixes of their slugs. -/
def operandsOf (sources : List SplitSource) (stored : Text → List Text) : List Operand :=
  (keysOf sources).map fun k => ⟨k.1, k.2.1, k.2.2, stored k.1⟩

/-- What the merge reads from the tables at one moment. -/
def inputOf (tables : FeedTables) : MergeInput :=
  ⟨operandsOf tables.sources tables.prefixesFor, tables.manualPrefixes, tables.exclusions⟩

def Operand.contribution (operand : Operand) : Except SplitError SourceContribution :=
  if operand.stored.isEmpty then .error (.noCache operand.slug)
  else .ok ⟨operand.slug, operand.mode, toNetworks operand.stored, operand.scopeSlug⟩

/-- The list that is merged from the input. -/
def listOf (input : MergeInput) : Except SplitError (List Text) := do
  let contributions ← input.operands.mapM Operand.contribution
  match mergeSplitList (toNetworks input.manual) contributions (toNetworks input.exclusions) with
  | none => .error .valueError
  | some report => .ok report.prefixes

theorem keysOf_of_operandsOf {sources sources' : List SplitSource} {stored stored' : Text → List Text}
    (h : operandsOf sources stored = operandsOf sources' stored') :
    keysOf sources = keysOf sources' := by
  have hk : ∀ sources stored, (operandsOf sources stored).map
      (fun o => (o.slug, o.mode, o.scopeSlug)) = keysOf sources := by
    intro sources stored
    rw [operandsOf, List.map_map]
    exact List.map_id _
  rw [← hk sources stored, h, hk]

theorem operandsOf_congr {sources sources' : List SplitSource} (stored : Text → List Text)
    (h : keysOf sources = keysOf sources') : operandsOf sources stored = operandsOf sources' stored := by
  rw [operandsOf, operandsOf, h]

theorem planOf_eq (sources : List SplitSource) (stored : Text → List Text)
    (manual exclusions current : List Text) :
    (planOf sources stored manual exclusions current).map MergePlan.prefixes =
      listOf ⟨operandsOf sources stored, manual, exclusions⟩ := by
  have hmap : (operandsOf sources stored).mapM Operand.contribution =
      (sources.filter SplitSource.takesPart).mapM (contribution stored) := by
    rw [operandsOf, keysOf, List.map_map, List.mapM_map]
    rfl
  simp only [planOf, listOf, hmap]
  cases (sources.filter SplitSource.takesPart).mapM (contribution stored) with
  | error e => rfl
  | ok contributions =>
    change Except.map _ (match mergeSplitList (toNetworks manual) contributions
      (toNetworks exclusions) with
      | none => _
      | some report => _) = match mergeSplitList (toNetworks manual) contributions
      (toNetworks exclusions) with
      | none => _
      | some report => _
    cases mergeSplitList (toNetworks manual) contributions (toNetworks exclusions) <;> rfl

theorem listOf_of_planOf {sources : List SplitSource} {stored : Text → List Text}
    {manual exclusions current : List Text} {plan : MergePlan}
    (h : planOf sources stored manual exclusions current = .ok plan) :
    listOf ⟨operandsOf sources stored, manual, exclusions⟩ = .ok plan.prefixes := by
  rw [← planOf_eq sources stored manual exclusions current, h]
  rfl

/-! ### The property and the condition -/

/-- The verdict lets the cycle apply unattended: no hold, and a pure re-aggregation or a candidate
seen often enough. -/
def Passed (service : FeedService) (j : Judgement) : Prop :=
  j.analysis.suspicious = false ∧
    (j.analysis.pureAggregation = true ∨ max 1 service.confirmStreak ≤ j.streak)

/-- The list has the hash of an analysis that passed in this run. -/
def JudgedList (service : FeedService) (s : CycleState) (l : List Text) : Prop :=
  ∃ j, s.judged = some j ∧ Passed service j ∧ listHash l = j.analysis.listHash

/-- The only list that the cycle writes is the one it has judged. -/
def WritesJudged (service : FeedService) (s : CycleState) : Prop :=
  ∀ l ∈ s.written, JudgedList service s l

/-- A change of the tables by another operation does not disturb the cycle: while the cycle reads
the tables for a list, the merge input stays the same; between the two reads the merged list does;
at all other times any change may be made. -/
def Undisturbed (pc : Pc) (tables tables' : FeedTables) : Prop :=
  match pc with
  | .planPrefixes _ _ | .planExclusions _ _ _ | .applyPrefixes _ | .applyExclusions _ _ =>
    inputOf tables' = inputOf tables
  | .analyseSources _ _ | .analyseBaselines _ _ | .checking _ _ | .streakHash _ _
  | .streakCount _ _ _ | .streakSetHash _ _ _ | .streakSetCount _ _ _ | .locking | .applySources =>
    listOf (inputOf tables') = listOf (inputOf tables)
  | _ => True

theorem undisturbed_of_inputOf_eq {tables tables' : FeedTables} (pc : Pc)
    (h : inputOf tables' = inputOf tables) : Undisturbed pc tables tables' := by
  cases pc with
  | preparing | planSources | applyChecking | applying | restoring | done => exact trivial
  | planPrefixes | planExclusions | applyPrefixes | applyExclusions => exact h
  | _ => exact congrArg listOf h

theorem undisturbed_stampSuccess (pc : Pc) (tables : FeedTables) (slug : Text) (stamp : ℤ) :
    Undisturbed pc tables ((Statement.stampSuccess slug stamp).exec tables) := by
  have hkeys : ∀ sources : List SplitSource, keysOf (sources.map fun s =>
      if s.slug = slug then { s with lastSuccessTs := stamp } else s) = keysOf sources := by
    intro sources
    induction sources with
    | nil => rfl
    | cons s sources ih =>
      unfold keysOf at ih ⊢
      rw [List.map_cons, List.filter_cons, List.filter_cons]
      split_ifs with hs
      all_goals simp_all [SplitSource.takesPart]
  refine undisturbed_of_inputOf_eq pc ?_
  have hoperands := operandsOf_congr tables.prefixesFor (hkeys tables.sources)
  exact congrArg (fun operands => MergeInput.mk operands tables.manualPrefixes tables.exclusions)
    hoperands

/-- The cycle is not about to put back another list than the one it applies: the helper does not
refuse the apply, or there was no list before, or it has the same hash. -/
def PutsBackNoOther (host : Host) (s : CycleState) : Prop :=
  match s.pc with
  | .applying prefixes (some text) =>
    (strip text).isEmpty = true ∨ listHash (readList (some text)) = listHash prefixes ∨
      ∀ returncode detail file, host.applyHelper (renderList prefixes) s.file =
        .exited returncode detail file → returncode = 0
  | _ => True

/-- The condition on the actions: the statements of other operations do not disturb the cycle, and
the helper gives no reason to put back another list. -/
def undisturbedAction (s : CycleState) : CycleAction → Prop
  | .other statement => Undisturbed s.pc s.tables (statement.exec s.tables)
  | .next host _ => PutsBackNoOther host s
  | _ => True

/-! ### The invariant -/

/-- Nothing is judged or written yet. -/
def Fresh (s : CycleState) : Prop := s.judged = none ∧ s.written = []

/-- A judged list can be merged from the tables, and nothing is written yet. -/
def MergesJudged (service : FeedService) (s : CycleState) : Prop :=
  s.written = [] ∧ ∃ l, listOf (inputOf s.tables) = .ok l ∧ JudgedList service s l

/-- What holds where the cycle waits. -/
def CycleInv (service : FeedService) (s : CycleState) : Prop :=
  match s.pc with
  | .preparing | .planSources _ => Fresh s
  | .planPrefixes _ sources => Fresh s ∧ keysOf sources = keysOf s.tables.sources
  | .planExclusions _ sources stored =>
    Fresh s ∧ operandsOf sources stored = (inputOf s.tables).operands ∧
      stored MANUAL_ORIGIN = s.tables.manualPrefixes
  | .analyseSources _ plan | .analyseBaselines plan _ =>
    Fresh s ∧ listOf (inputOf s.tables) = .ok plan.prefixes
  | .checking plan analysis =>
    Fresh s ∧ listOf (inputOf s.tables) = .ok plan.prefixes ∧
      analysis.listHash = listHash plan.prefixes
  | .streakHash plan analysis | .streakCount plan analysis _ | .streakSetHash plan analysis _
  | .streakSetCount plan analysis _ =>
    Fresh s ∧ listOf (inputOf s.tables) = .ok plan.prefixes ∧
      analysis.listHash = listHash plan.prefixes ∧ analysis.suspicious = false
  | .locking | .applySources => MergesJudged service s
  | .applyPrefixes sources => MergesJudged service s ∧ keysOf sources = keysOf s.tables.sources
  | .applyExclusions sources stored =>
    MergesJudged service s ∧ operandsOf sources stored = (inputOf s.tables).operands ∧
      stored MANUAL_ORIGIN = s.tables.manualPrefixes
  | .applyChecking prefixes _ | .applying prefixes _ =>
    s.written = [] ∧ JudgedList service s prefixes
  | .restoring previous =>
    WritesJudged service s ∧ ∀ text, previous = some text → (strip text).isEmpty = false →
      JudgedList service s (readList previous)
  | .done _ => WritesJudged service s

variable {service : FeedService} {s : CycleState}

theorem writesJudged_of_written (h : s.written = []) :
    WritesJudged service s := fun l hl => by
  rw [h] at hl
  cases hl

theorem writesJudged_append {s s' : CycleState} {l : List Text}
    (h : WritesJudged service s) (hl : JudgedList service s l) (hjudged : s'.judged = s.judged)
    (hwritten : s'.written = s.written ++ [l]) : WritesJudged service s' := by
  intro l' hl'
  rw [JudgedList, hjudged]
  rw [hwritten, List.mem_append, List.mem_singleton] at hl'
  obtain hl' | rfl := hl'
  · exact h l' hl'
  · exact hl

/-- The invariant contains the property. -/
theorem writesJudged_of_cycleInv (h : CycleInv service s) : WritesJudged service s := by
  unfold CycleInv at h
  split at h
  all_goals
    first
    | exact h
    | exact h.1
    | exact writesJudged_of_written h.2
    | exact writesJudged_of_written h.1
    | exact writesJudged_of_written h.1.2
    | exact writesJudged_of_written h.1.1

theorem cycleInv_of_undisturbed {tables : FeedTables}
    (h : CycleInv service s) (hu : Undisturbed s.pc s.tables tables) :
    CycleInv service { s with tables := tables } := by
  obtain ⟨tables₀, file, endpointIp, lock, pc, judged, written⟩ := s
  have hkeys : inputOf tables = inputOf tables₀ →
      keysOf tables.sources = keysOf tables₀.sources := fun he =>
    keysOf_of_operandsOf (congrArg MergeInput.operands he)
  have hmerges : listOf (inputOf tables) = listOf (inputOf tables₀) →
      MergesJudged service ⟨tables₀, file, endpointIp, lock, pc, judged, written⟩ →
      MergesJudged service ⟨tables, file, endpointIp, lock, pc, judged, written⟩ := by
    rintro he ⟨hw, l, hl, hj⟩
    exact ⟨hw, l, he.trans hl, hj⟩
  cases pc with
  | preparing => exact h
  | planSources empty => exact h
  | planPrefixes empty sources => exact ⟨h.1, h.2.trans (hkeys hu).symm⟩
  | planExclusions empty sources stored =>
    exact ⟨h.1, h.2.1.trans (congrArg MergeInput.operands hu).symm,
      h.2.2.trans (congrArg MergeInput.manual hu).symm⟩
  | analyseSources empty plan => exact ⟨h.1, hu.trans h.2⟩
  | analyseBaselines plan states => exact ⟨h.1, hu.trans h.2⟩
  | checking plan analysis => exact ⟨h.1, hu.trans h.2.1, h.2.2⟩
  | streakHash plan analysis => exact ⟨h.1, hu.trans h.2.1, h.2.2⟩
  | streakCount plan analysis previous => exact ⟨h.1, hu.trans h.2.1, h.2.2⟩
  | streakSetHash plan analysis count => exact ⟨h.1, hu.trans h.2.1, h.2.2⟩
  | streakSetCount plan analysis count => exact ⟨h.1, hu.trans h.2.1, h.2.2⟩
  | locking => exact hmerges hu h
  | applySources => exact hmerges hu h
  | applyPrefixes sources =>
    exact ⟨hmerges (congrArg listOf hu) h.1, h.2.trans (hkeys hu).symm⟩
  | applyExclusions sources stored =>
    exact ⟨hmerges (congrArg listOf hu) h.1, h.2.1.trans (congrArg MergeInput.operands hu).symm,
      h.2.2.trans (congrArg MergeInput.manual hu).symm⟩
  | applyChecking prefixes previous => exact h
  | applying prefixes previous => exact h
  | restoring previous => exact h
  | done decision => exact h

/-- Ending the run keeps the property. -/
theorem cycleInv_finish (h : WritesJudged service s)
    (decision : Decision) : CycleInv service (s.finish decision) := h

theorem cycleInv_judge {analysis : ChangeAnalysis}
    {streak : ℤ} {l : List Text} (hw : s.written = [])
    (hl : listOf (inputOf s.tables) = .ok l) (hh : analysis.listHash = listHash l)
    (hp : Passed service ⟨analysis, streak⟩) : CycleInv service (s.judge analysis streak) :=
  ⟨hw, l, hl, _, rfl, hp, hh.symm⟩

/-- What follows the check keeps the invariant: only a candidate without holds goes on. -/
theorem cycleInv_afterCheck {plan : MergePlan}
    {analysis : ChangeAnalysis} (hf : Fresh s) (hl : listOf (inputOf s.tables) = .ok plan.prefixes)
    (hh : analysis.listHash = listHash plan.prefixes) :
    CycleInv service (afterCheck service plan analysis s) := by
  rw [afterCheck]
  split_ifs with hq ha
  · exact cycleInv_finish (writesJudged_of_written hf.2) _
  · rw [not_or, Bool.not_eq_true] at hq
    exact cycleInv_judge hf.2 hl hh ⟨hq.2, Or.inl ha⟩
  · rw [not_or, Bool.not_eq_true] at hq
    exact ⟨hf, hl, hh, hq.2⟩

/-- **Every step of the cycle keeps the invariant.** -/
theorem cycleInv_advance {host : Host} {now : ℤ} {s s' : CycleState}
    (h : CycleInv service s) (hhost : PutsBackNoOther host s)
    (hstep : advance service host now s = some s') : CycleInv service s' := by
  obtain ⟨tables, file, endpointIp, lock, pc, judged, written⟩ := s
  cases pc with
  | preparing => cases hstep
  | planSources empty =>
    cases hstep
    exact ⟨h, rfl⟩
  | planPrefixes empty sources =>
    cases hstep
    exact ⟨h.1, operandsOf_congr _ h.2, rfl⟩
  | planExclusions empty sources stored =>
    simp only [advance] at hstep
    split at hstep
    · cases hstep
      exact cycleInv_finish (writesJudged_of_written h.1.2) _
    · rename_i plan hplan
      cases hstep
      have hl := listOf_of_planOf hplan
      rw [h.2.1, h.2.2] at hl
      exact ⟨h.1, hl⟩
  | analyseSources empty plan =>
    cases hstep
    exact h
  | analyseBaselines plan states =>
    simp only [advance] at hstep
    split_ifs at hstep
    · cases hstep
      exact cycleInv_finish (writesJudged_of_written h.1.2) _
    · cases hstep
      exact ⟨h.1, h.2, rfl⟩
  | checking plan analysis =>
    simp only [advance] at hstep
    split at hstep
    · cases hstep
      exact cycleInv_finish (writesJudged_of_written h.1.2) .rejected
    · cases hstep
      exact cycleInv_afterCheck h.1 h.2.1 h.2.2
  | streakHash plan analysis =>
    cases hstep
    exact h
  | streakCount plan analysis previous =>
    cases hstep
    exact h
  | streakSetHash plan analysis count =>
    cases hstep
    exact h
  | streakSetCount plan analysis count =>
    simp only [advance] at hstep
    split_ifs at hstep with hc
    · cases hstep
      exact cycleInv_finish (writesJudged_of_written h.1.2) .nochange
    · -- the streak is long enough: the candidate is judged
      cases hstep
      exact cycleInv_judge h.1.2 h.2.1 h.2.2.1 ⟨h.2.2.2, Or.inr (not_lt.1 hc)⟩
  | locking =>
    simp only [advance] at hstep
    split_ifs at hstep
    cases hstep
    exact h
  | applySources =>
    cases hstep
    exact ⟨h, rfl⟩
  | applyPrefixes sources =>
    cases hstep
    exact ⟨h.1, operandsOf_congr _ h.2, rfl⟩
  | applyExclusions sources stored =>
    simp only [advance] at hstep
    split at hstep
    · cases hstep
      exact cycleInv_finish (writesJudged_of_written h.1.1) _
    · rename_i plan hplan
      have hl := listOf_of_planOf hplan
      rw [h.2.1, h.2.2] at hl
      obtain ⟨⟨hw, l, hl', hj⟩, -⟩ := h
      -- the list read now is the list that was judged
      have he : l = plan.prefixes := Except.ok.inj (hl'.symm.trans hl)
      split_ifs at hstep
      · cases hstep
        exact cycleInv_finish (writesJudged_of_written hw) _
      · cases hstep
        exact ⟨hw, he ▸ hj⟩
  | applyChecking prefixes previous =>
    simp only [advance] at hstep
    split at hstep
    · rename_i e _
      cases hstep
      exact cycleInv_finish (writesJudged_of_written h.1) (applyFailure e)
    · split_ifs at hstep
      · cases hstep
        exact cycleInv_finish (writesJudged_of_written h.1) .nochange
      · cases hstep
        exact h
  | applying prefixes previous =>
    -- the list that the helper gets is written, whatever it answers
    have hw : ∀ s', s'.judged = judged → s'.written = written ++ [prefixes] →
        WritesJudged service s' := fun s' =>
      writesJudged_append (writesJudged_of_written h.1) h.2
    simp only [advance] at hstep
    split at hstep
    · rename_i returncode detail file' hexit
      split_ifs at hstep with hzero
      · cases hstep
        exact hw _ rfl rfl
      · cases hstep
        refine ⟨hw _ rfl rfl, fun text hprevious hblank => ?_⟩
        subst hprevious
        -- no previous list, one with the same hash, or a helper that does not fail
        obtain hempty | hhash | hobeys := hhost
        · rw [hempty] at hblank
          cases hblank
        · obtain ⟨j, hj, hpassed, hlist⟩ := h.2
          exact ⟨j, hj, hpassed, hhash.trans hlist⟩
        · exact absurd (hobeys _ _ _ hexit) hzero
    · cases hstep
      exact hw _ rfl rfl
  | restoring previous =>
    simp only [advance] at hstep
    split at hstep
    · cases hstep
      exact h.1
    · rename_i text
      split_ifs at hstep with hblank
      · cases hstep
        exact h.1
      · cases hstep
        rw [Bool.not_eq_true] at hblank
        exact writesJudged_append h.1 (h.2 text rfl hblank) rfl rfl
  | done decision => cases hstep

theorem cycleInv_step {s s' : CycleState} (a : CycleAction) (h : CycleInv service s)
    (ha : undisturbedAction s a) (hstep : cycleStep service s a = some s') :
    CycleInv service s' := by
  cases a with
  | prepare statement =>
    obtain ⟨tables, file, endpointIp, lock, pc, judged, written⟩ := s
    cases pc with
    | preparing =>
      cases hstep
      exact h
    | _ => cases hstep
  | fetched empty =>
    obtain ⟨tables, file, endpointIp, lock, pc, judged, written⟩ := s
    cases pc with
    | preparing =>
      cases hstep
      exact h
    | _ => cases hstep
  | next host now => exact cycleInv_advance h ha hstep
  | other statement =>
    cases hstep
    exact cycleInv_of_undisturbed h ha
  | otherLock =>
    simp only [cycleStep] at hstep
    split_ifs at hstep
    cases hstep
    exact h
  | otherUnlock =>
    simp only [cycleStep] at hstep
    split_ifs at hstep
    cases hstep
    exact h
  | otherFile file =>
    simp only [cycleStep] at hstep
    split_ifs at hstep
    cases hstep
    exact h

/-- **In every run in which no other operation disturbs the cycle and no failed apply is rolled
back to another list, the only list that the cycle writes is the one it has judged.** -/
theorem writesJudged_of_undisturbed (service : FeedService) (tables : FeedTables)
    (file : Option Text) (endpointIp : Option ℕ) (lock : ManagerLock) (actions : List CycleAction)
    (s : CycleState)
    (hrun : Sys.runFrom (cycleStep service) (cycleStart tables file endpointIp lock) actions = some s)
    (hquiet : Sys.Allowed (cycleStep service) undisturbedAction
      (cycleStart tables file endpointIp lock) actions) : WritesJudged service s := by
  have hstart : CycleInv service (cycleStart tables file endpointIp lock) := ⟨rfl, rfl⟩
  have hstep : ∀ s a s', CycleInv service s → undisturbedAction s a →
      cycleStep service s a = some s' → CycleInv service s' := fun _ a _ h ha hs =>
    cycleInv_step a h ha hs
  exact writesJudged_of_cycleInv (Sys.invariant_of_allowed hstep hstart hquiet hrun)

/-! ### A run that is disturbed -/

/-- The service in auto mode with the default settings. -/
def autoService : FeedService := ⟨defaultManager, .auto, ⟨20, 50, 259200⟩, 2⟩

/-- One enabled source, and two hand-typed halves of `8.8.8.0/24`. -/
def twoHalves : FeedTables where
  sources := [⟨"telegram-cidr".toList, .add, none, true, true, 1000⟩]
  prefixes :=
    [("telegram-cidr".toList, "91.108.4.0/22".toList), (MANUAL_ORIGIN, "8.8.8.0/25".toList),
      (MANUAL_ORIGIN, "8.8.8.128/25".toList)]
  exclusionRows := []
  baselines := Dict.empty
  metaRows := Dict.singleton ADOPTED_META_KEY ['1']

/-- The cycle about to start; the list file has the halves one by one. -/
def twoHalvesStart : CycleState :=
  cycleStart twoHalves (some (renderList ["8.8.8.0/25".toList, "8.8.8.128/25".toList,
    "91.108.4.0/22".toList])) none .free

theorem putsBackNoOther_obedientHost (s : CycleState) : PutsBackNoOther obedientHost s := by
  unfold PutsBackNoOther
  split
  · right
    right
    intro returncode detail file hexit
    cases hexit
    rfl
  · exact trivial

/-- The cycle goes on to its next wait so many times. -/
def turns (n : ℕ) : List CycleAction := List.replicate n (.next obedientHost 2000)

/-- An undisturbed run: while the cycle checks the candidate a source is stamped, and the list
with the two halves put together is written. -/
def quietRun : List CycleAction :=
  .fetched [] :: (turns 5 ++ .other (.stampSuccess "telegram-cidr".toList 2000) :: turns 7)

theorem writesJudged_quietRun :
    ∃ s, Sys.runFrom (cycleStep autoService) twoHalvesStart quietRun = some s ∧
      s.written = [["8.8.8.0/24".toList, "91.108.4.0/22".toList]] ∧
      WritesJudged autoService s := by
  have hwritten : (Sys.runFrom (cycleStep autoService) twoHalvesStart quietRun).map
      CycleState.written = some [["8.8.8.0/24".toList, "91.108.4.0/22".toList]] := by
    decide +kernel
  obtain ⟨s, hs, hw⟩ := Option.map_eq_some_iff.1 hwritten
  have hquiet : ∀ a ∈ quietRun, ∀ s, undisturbedAction s a := by
    intro a ha s
    simp only [quietRun, turns, List.mem_cons, List.mem_append, List.mem_replicate] at ha
    obtain rfl | ⟨-, rfl⟩ | rfl | ⟨-, rfl⟩ := ha
    · exact trivial
    · exact putsBackNoOther_obedientHost s
    · exact undisturbed_stampSuccess _ _ _ _
    · exact putsBackNoOther_obedientHost s
  exact ⟨s, hs, hw, writesJudged_of_undisturbed autoService _ _ _ _ quietRun s hs
    (Sys.allowed_of_forall hquiet _)⟩

/-- The same cycle, and after the candidate is checked another task refreshes the source, whose
feed has published `1.0.0.0/8` as well. -/
def disturbedRun : List CycleAction :=
  .fetched [] :: (turns 6 ++
    [.other (.deleteOrigin "telegram-cidr".toList),
      .other (.insertPrefixes "telegram-cidr".toList ["1.0.0.0/8".toList, "91.108.4.0/22".toList]),
      .other (.stampSuccess "telegram-cidr".toList 2000)] ++ turns 6)

/-- A list with another hash than the one judged is written. -/
def writesOtherHash (s : CycleState) : Bool :=
  match s.judged with
  | some j => s.written.any fun l => listHash l ≠ j.analysis.listHash
  | none => false

/-- The cycle writes the new prefix, which it has never analysed. -/
theorem not_writesJudged_disturbedRun :
    ∃ s, Sys.runFrom (cycleStep autoService) twoHalvesStart disturbedRun = some s ∧
      ¬ WritesJudged autoService s := by
  have hrun : ((Sys.runFrom (cycleStep autoService) twoHalvesStart disturbedRun).map
      writesOtherHash) = some true := by
    decide +kernel
  obtain ⟨s, hs, hother⟩ := Option.map_eq_some_iff.1 hrun
  refine ⟨s, hs, fun h => ?_⟩
  unfold writesOtherHash at hother
  split at hother
  · rename_i j hj
    obtain ⟨l, hl, hne⟩ := List.any_eq_true.1 hother
    obtain ⟨j', hj', -, hhash⟩ := h l hl
    rw [hj] at hj'
    cases hj'
    exact absurd hhash (of_decide_eq_true hne)
  · cases hother

end VpnBot.Warp
