import VpnBot.Warp.FeedRuns

/-!
# How the calls of the feed service end

One lemma for each call, with everything that later proofs use: `ends_runCycle` by the verdict on the
candidate (`verdictOf`), `ends_applyPending`, and `ends_outcome` for the edits by their table part.  What
an apply leaves is `ApplyEnd` in all of them.
-/

namespace VpnBot.Warp

open Py Sys FeedTables

/-! ### The verdict of a run -/

/-- The ways a run can go after the fetch. -/
inductive Verdict
  /-- The merge fails, the list is the one in the file, a guard rejects it, or it is held. -/
  | stops
  /-- A pure re-aggregation, which is applied at once. -/
  | aggregates (plan : MergePlan) (analysis : ChangeAnalysis)
  /-- The candidate is counted. -/
  | counts (plan : MergePlan) (analysis : ChangeAnalysis)

/-- The guards of a run when it checks its candidate. -/
def checkGuards (service : FeedService) (input : RunInput) (s : ServiceState) : List Guard :=
  buildGuards service.manager input.checkHost (input.checkHost.probe <|> s.split.endpointIp)

/-- The verdict on a candidate that has passed the check. -/
def passedVerdict (service : FeedService) (plan : MergePlan) (analysis : ChangeAnalysis) : Verdict :=
  if service.mode = .review ∨ analysis.suspicious then .stops
  else if analysis.pureAggregation then .aggregates plan analysis
  else .counts plan analysis

/-- The verdict on the candidate of a refreshed state. -/
def verdictOf (service : FeedService) (input : RunInput) (s : ServiceState) : Verdict :=
  match candidateOf s with
  | .error _ => .stops
  | .ok plan =>
    let analysis := analyse service input.now (emptyParses input.fetches s.tables) plan s.tables
    if analysis.identical then .stops
    else
      match checkList service.manager (checkGuards service input s) plan.prefixes with
      | .error _ => .stops
      | .ok () => passedVerdict service plan analysis

theorem verdictOf_of_ne_stops {service : FeedService} {input : RunInput} {s : ServiceState}
    (h : verdictOf service input s ≠ .stops) : ∃ plan, candidateOf s = .ok plan ∧
      verdictOf service input s = passedVerdict service plan
        (analyse service input.now (emptyParses input.fetches s.tables) plan s.tables) := by
  unfold verdictOf at h ⊢
  cases hcandidate : candidateOf s with
  | error e =>
    rw [hcandidate] at h
    exact absurd rfl h
  | ok plan =>
    rw [hcandidate] at h
    refine ⟨plan, rfl, ?_⟩
    dsimp only at h ⊢
    by_cases hidentical :
        (analyse service input.now (emptyParses input.fetches s.tables) plan s.tables).identical = true
    · exact absurd (if_pos hidentical) h
    · rw [if_neg hidentical] at h ⊢
      cases hcheck : checkList service.manager (checkGuards service input s) plan.prefixes with
      | error e =>
        rw [hcheck] at h
        exact absurd rfl h
      | ok u => rfl

/-- The state in which a run applies: after the check has probed the endpoint. -/
def probed (input : RunInput) (s : ServiceState) : ServiceState :=
  { s with split.endpointIp := input.checkHost.probe <|> s.split.endpointIp }

/-! ### The apply -/

/-- The state after `_after_apply`, `_reset_streak` and `_forget_pending`. -/
def finished (s : ServiceState) : ServiceState :=
  let captured := captureBaseline s
  { captured.withTables (resetStreak captured.tables) with pending := none }

@[simp] theorem ends_afterApply {P : Unit → ServiceState → Prop} {Q : FeedError → ServiceState → Prop}
    {s : ServiceState} : Program.Ends afterApply P Q s ↔ P () (finished s) := Iff.rfl

/-- What an apply leaves: nothing but the list file and the endpoint is changed when it is refused, and
the state is finished when it is not. -/
def ApplyEnd (manager : SplitManager) (host : Host) (s : ServiceState) :
    Option ApplyOutcome → ServiceState → Prop
  | none, s' => s'.tables = s.tables ∧ s'.baselineHash = s.baselineHash ∧
      ¬ CanApply manager host s.split s.tables
  | some _, s' => CanApply manager host s.split s.tables ∧ ∃ t, t.tables = s.tables ∧ s' = finished t

theorem ends_applyRun (service : FeedService) (input : RunInput) (analysis : ChangeAnalysis)
    (streak : ℤ) (s : ServiceState) :
    Program.Ends (applyRun service input analysis streak)
      (fun r s' => r.analysis = some analysis ∧
        ApplyEnd service.manager input.applyHost s r.outcome s')
      (fun _ s' => ApplyEnd service.manager input.applyHost s none s') s := by
  simp only [applyRun, onSplit, Program.ends_bind, Program.ends_tryCatch, Program.ends_map,
    Program.ends_zoom]
  refine (ends_applyComputed service.manager input.applyHost s.split).mono ?_ ?_
  · rintro outcome t ⟨ht, hcan⟩
    exact ⟨rfl, hcan, { s with split := t }, ht, rfl⟩
  · rintro e t ⟨ht, hcan⟩
    cases e with
    | capExceeded count limit => exact ⟨rfl, ht, rfl, hcan⟩
    | noCache slug => exact ⟨rfl, ht, rfl, hcan⟩
    | _ => exact ⟨ht, rfl, hcan⟩

/-! ### The run -/

def appliedBy (result : Option CycleResult) : Option ApplyOutcome := result.bind CycleResult.outcome

/-- The result, if the run returns, has this analysis. -/
def HasAnalysis (analysis : ChangeAnalysis) (result : Option CycleResult) : Prop :=
  ∀ r, result = some r → r.analysis = some analysis

/-- How a run ends: what it returns and what it leaves, by the verdict on its candidate. -/
def RunEnd (service : FeedService) (input : RunInput) (s : ServiceState)
    (result : Option CycleResult) (s' : ServiceState) : Verdict → Prop
  | .stops => appliedBy result = none ∧ s'.tables = s.tables ∧ s'.baselineHash = s.baselineHash
  | .aggregates _ analysis => HasAnalysis analysis result ∧
      ApplyEnd service.manager input.applyHost (probed input s) (appliedBy result) s'
  | .counts _ analysis =>
    let bumped := (probed input s).withTables (bumpStreak analysis.listHash s.tables)
    HasAnalysis analysis result ∧
      if nextStreak analysis.listHash s.tables < max 1 service.confirmStreak then
        appliedBy result = none ∧ s' = bumped
      else ApplyEnd service.manager input.applyHost bumped (appliedBy result) s'

theorem ends_buildPlan {s : SplitState} {P : MergePlan → SplitState → Prop}
    {Q : SplitError → SplitState → Prop} :
    Program.Ends buildPlan P Q s ↔
      (∀ plan, planOf s.tables.sources s.tables.prefixesFor s.tables.manualPrefixes
        s.tables.exclusions (readList s.file) = .ok plan → P plan s) ∧
      ∀ e, planOf s.tables.sources s.tables.prefixesFor s.tables.manualPrefixes
        s.tables.exclusions (readList s.file) = .error e → Q e s :=
  Program.ends_ofExcept _

theorem ends_decideRun (service : FeedService) (input : RunInput) (plan : MergePlan)
    (analysis : ChangeAnalysis) (s : ServiceState) :
    Program.Ends (decideRun service input plan analysis)
      (fun r s' => RunEnd service input s (some r) s' (passedVerdict service plan analysis))
      (fun _ s' => RunEnd service input s none s' (passedVerdict service plan analysis))
      (probed input s) := by
  have hsome : ∀ r : CycleResult, r.analysis = some analysis → HasAnalysis analysis (some r) :=
    fun r hr r' hr' => Option.some.inj hr' ▸ hr
  unfold decideRun passedVerdict
  split_ifs with hheld hpure
  · exact ⟨rfl, rfl, rfl⟩
  · exact (ends_applyRun service input analysis 0 _).mono (fun r s' h => ⟨hsome r h.1, h.2⟩)
      fun e s' h => ⟨by rintro _ ⟨⟩, h⟩
  · simp only [Program.ends_bind, Program.ends_get, updateTables, update, Program.ends_modify]
    by_cases hstreak : nextStreak analysis.listHash s.tables < max 1 service.confirmStreak
    · have hif : nextStreak analysis.listHash (probed input s).tables < max 1 service.confirmStreak :=
        hstreak
      rw [if_pos hif, Program.ends_pure]
      exact ⟨hsome _ rfl, (if_pos hstreak).mpr ⟨rfl, rfl⟩⟩
    · have hif : ¬ nextStreak analysis.listHash (probed input s).tables <
        max 1 service.confirmStreak := hstreak
      rw [if_neg hif]
      refine (ends_applyRun service input analysis _ _).mono (fun r s' h => ?_) fun e s' h => ?_
      · exact ⟨hsome r h.1, (if_neg hstreak).mpr h.2⟩
      · exact ⟨by rintro _ ⟨⟩, (if_neg hstreak).mpr h⟩

theorem ends_checkRun (service : FeedService) (input : RunInput) (plan : MergePlan)
    {s : ServiceState} {P : Bool → ServiceState → Prop} {Q : FeedError → ServiceState → Prop} :
    Program.Ends (checkRun service input.checkHost plan) P Q s ↔
      (∀ e, checkList service.manager (checkGuards service input s) plan.prefixes = .error e →
        P false (probed input s)) ∧
      (checkList service.manager (checkGuards service input s) plan.prefixes = .ok () →
        P true (probed input s)) := by
  simp only [checkRun, checkCandidate, refreshEndpoint, onSplit, Program.ends_tryCatch,
    Program.ends_map, Program.ends_zoom, Program.ends_bind, Program.ends_modify,
    Program.ends_ofExcept, Program.ends_pure]
  exact ⟨fun h => ⟨h.2, h.1 ()⟩, fun h => ⟨fun _ => h.2, h.1⟩⟩

/-- **How a run ends**, by the verdict on the candidate that it computes from the refreshed tables. -/
theorem ends_runCycle (service : FeedService) (input : RunInput) (s : ServiceState) :
    Program.Ends (runCycle service input)
      (fun r s' => RunEnd service input (refreshed input s) (some r) s'
        (verdictOf service input (refreshed input s)))
      (fun _ s' => RunEnd service input (refreshed input s) none s'
        (verdictOf service input (refreshed input s))) s := by
  simp only [runCycle, update, onSplit, Program.ends_bind, Program.ends_modify, Program.ends_tryCatch,
    Program.ends_map, Program.ends_zoom, ends_buildPlan]
  generalize refreshed input s = p
  refine ⟨fun plan hplan => ?_, fun e he => ?_⟩
  · have hcandidate : candidateOf p = .ok plan := hplan
    simp only [judgeRun, Program.ends_bind, Program.ends_get]
    rw [verdictOf, hcandidate]
    dsimp only
    generalize analyse service input.now (emptyParses input.fetches p.tables) plan p.tables = analysis
    split_ifs with hidentical
    · exact ⟨rfl, rfl, rfl⟩
    · rw [Program.ends_bind, ends_checkRun]
      constructor
      · intro e hcheck
        rw [hcheck]
        exact ⟨rfl, rfl, rfl⟩
      · intro hcheck
        rw [hcheck]
        exact ends_decideRun service input plan analysis p
  · have hcandidate : candidateOf p = .error e := he
    rw [verdictOf, hcandidate]
    cases e with
    | noCache slug => exact ⟨rfl, rfl, rfl⟩
    | _ => exact ⟨rfl, rfl, rfl⟩

theorem runEnd_runCycle (service : FeedService) (input : RunInput) (s : ServiceState) :
    RunEnd service input (refreshed input s) (Program.result (runCycle service input) s).1
      (Program.result (runCycle service input) s).2
      (verdictOf service input (refreshed input s)) :=
  (ends_runCycle service input s).result (R := fun result s' =>
    RunEnd service input (refreshed input s) result s'
      (verdictOf service input (refreshed input s)))

/-! ### The decisions of an admin -/

theorem ends_recomputeApproved (expected : Text) (s : ServiceState) :
    Program.Ends (recomputeApproved expected)
      (fun l s' => s' = s ∧ AllCached s.tables ∧ l = mergedList s.tables ∧ listHash l = expected)
      (fun _ s' => s' = s) s := by
  simp only [recomputeApproved, onSplit, Program.ends_bind, Program.ends_zoom]
  refine (ends_recomputeForApply s.split).mono ?_ ?_
  · rintro l t ⟨rfl, hcached, hl⟩
    split_ifs with hhash
    · exact rfl
    · exact ⟨rfl, hcached, hl, not_not.1 hhash⟩
  · rintro e t ⟨rfl, -⟩
    rfl

/-- **How an approval ends**: it applies the pending candidate, or leaves everything but the list file
and the endpoint. -/
theorem ends_applyPending (service : FeedService) (host : Host) (s : ServiceState) :
    Program.Ends (applyPending service host)
      (fun _ s' => CanApply service.manager host s.split s.tables ∧
        (∃ candidate, s.pending = some candidate ∧
          listHash (mergedList s.tables) = candidate.listHash) ∧
        ∃ t, t.tables = s.tables ∧ s' = finished t)
      (fun _ s' => s'.tables = s.tables ∧ s'.baselineHash = s.baselineHash) s := by
  simp only [applyPending, Program.ends_bind, Program.ends_get]
  cases hpending : s.pending with
  | none => exact ⟨rfl, rfl⟩
  | some candidate =>
    simp only [Program.ends_bind]
    refine (ends_recomputeApproved candidate.listHash s).mono ?_ ?_
    · rintro - s' ⟨rfl, -⟩
      rw [Program.ends_bind]
      refine (ends_recomputeApproved candidate.listHash s').mono ?_ ?_
      · rintro l s'' ⟨rfl, hcached, rfl, hhash⟩
        simp only [onSplit, Program.ends_bind, Program.ends_zoom, ends_afterApply, Program.ends_pure]
        refine (ends_applyLocked service.manager host _ s''.split).mono ?_ ?_
        · rintro outcome t ⟨ht, haccepted⟩
          exact ⟨⟨hcached, haccepted⟩, ⟨candidate, rfl, hhash⟩, { s'' with split := t }, ht, rfl⟩
        · rintro e t ⟨ht, -⟩
          exact ⟨ht, trivial⟩
      · rintro e s'' rfl
        exact ⟨rfl, rfl⟩
    · rintro e s' rfl
      exact ⟨rfl, rfl⟩

/-! ### The edits -/

/-- What an edit leaves of the tables of the feeds: everything but the manual prefixes, the exclusions and
the mark of the adoption. -/
structure SameFeeds (tables tables' : FeedTables) : Prop where
  sources : tables'.sources = tables.sources
  stored : ∀ origin, origin ≠ MANUAL_ORIGIN → tables'.prefixesFor origin = tables.prefixesFor origin
  baselines : tables'.baselines = tables.baselines
  streakHash : tables'.getMeta STREAK_HASH_KEY = tables.getMeta STREAK_HASH_KEY
  streakCount : tables'.getMeta STREAK_COUNT_KEY = tables.getMeta STREAK_COUNT_KEY

namespace SameFeeds

variable {tables tables₁ tables₂ : FeedTables}

theorem rfl' : SameFeeds tables tables := ⟨rfl, fun _ _ => rfl, rfl, rfl, rfl⟩

theorem trans (h₁ : SameFeeds tables tables₁) (h₂ : SameFeeds tables₁ tables₂) :
    SameFeeds tables tables₂ :=
  ⟨h₂.sources.trans h₁.sources, fun o ho => (h₂.stored o ho).trans (h₁.stored o ho),
    h₂.baselines.trans h₁.baselines, h₂.streakHash.trans h₁.streakHash,
    h₂.streakCount.trans h₁.streakCount⟩

theorem addManual (ps : List Text) : SameFeeds tables (tables.addManualPrefixes ps) :=
  ⟨rfl, fun _ ho => prefixesFor_insertPrefixes_of_ne ho, rfl, rfl, rfl⟩

theorem removeManual (ps : List Text) : SameFeeds tables (tables.removeManualPrefixes ps) :=
  ⟨rfl, fun _ ho => prefixesFor_removeManualPrefixes_of_ne ho, rfl, rfl, rfl⟩

theorem adopt (file : Option Text) : SameFeeds tables (adopt file tables) := by
  have hmark : ∀ t : FeedTables, SameFeeds t (t.setMeta ADOPTED_META_KEY ['1']) := fun t =>
    ⟨rfl, fun _ _ => rfl, rfl, Dict.get?_set_of_ne _ _ (by decide),
      Dict.get?_set_of_ne _ _ (by decide)⟩
  unfold Warp.adopt
  split_ifs with hdone
  · exact rfl'
  · dsimp only
    split_ifs
    · exact hmark _
    · refine trans ?_ (hmark _)
      exact ⟨rfl, fun _ ho => prefixesFor_replacePrefixes_of_ne ho, rfl, rfl, rfl⟩

theorem of_step (manager : SplitManager) (host : Host) (s : SplitState) (e : Edit) :
    match e.step manager host s with
    | .raises tables | .returns tables | .applies tables => SameFeeds s.tables tables := by
  cases e with
  | addManual tokens =>
    simp only [Edit.step]
    split_ifs
    · exact adopt _
    · exact (adopt _).trans (addManual _)
  | removeManualMany ps =>
    simp only [Edit.step]
    cases manualRowsWithout (Warp.adopt s.file s.tables).manualPrefixes ps with
    | none => exact adopt _
    | some rows => exact (adopt _).trans ((removeManual _).trans (addManual _))
  | excludePrefix p =>
    have hexclude : ∀ t : FeedTables, SameFeeds t (t.addExclusion p) := fun _ =>
      ⟨rfl, fun _ _ => rfl, rfl, rfl, rfl⟩
    exact (adopt _).trans ((hexclude _).trans (removeManual _))
  | unexcludePrefix p => exact ⟨rfl, fun _ _ => rfl, rfl, rfl, rfl⟩
  | migrateManualIntoFeeds =>
    simp only [Edit.step]
    cases redundantRows (coveredNetworks (Warp.adopt s.file s.tables))
        (Warp.adopt s.file s.tables).manualPrefixes with
    | none => exact adopt _
    | some redundant => exact (adopt _).trans (removeManual _)

end SameFeeds

theorem run_eq_outcome (service : FeedService) (host : Host) (e : Edit) :
    e.run service.manager host = (fun _ => ()) <$> e.outcome service host := by
  cases e <;> simp only [Edit.run, Edit.outcome, Functor.map_map]

/-- **How an edit ends**: with the tables of its table part; the feeds are as they were, and so is the
baseline. -/
theorem ends_outcome (service : FeedService) (host : Host) (e : Edit) (s : ServiceState) :
    let kept (s' : ServiceState) := SameFeeds s.tables s'.tables ∧ s'.baselineHash = s.baselineHash
    Program.Ends (onSplit (e.outcome service host)) (fun _ => kept) (fun _ => kept) s := by
  intro kept
  have hends := ends_edit service.manager host e s.split
  have hsame := SameFeeds.of_step service.manager host s.split e
  rw [run_eq_outcome] at hends
  rw [onSplit, Program.ends_zoom]
  have hkept : ∀ (tables : FeedTables), SameFeeds s.tables tables → ∀ t : SplitState,
      t.tables = tables → kept { s with split := t } := by
    rintro tables hsame t rfl
    exact ⟨hsame, rfl⟩
  cases hstep : e.step service.manager host s.split with
  | raises tables =>
    rw [hstep] at hends hsame
    rw [EndsAs, Program.ends_map] at hends
    exact hends.mono (fun _ _ h => h.elim) fun _ t ht => hkept tables hsame t ht
  | returns tables =>
    rw [hstep] at hends hsame
    rw [EndsAs, Program.ends_map] at hends
    exact hends.mono (fun _ t ht => hkept tables hsame t ht) fun _ _ h => h.elim
  | applies tables =>
    rw [hstep] at hends hsame
    rw [EndsAs, Program.ends_map] at hends
    exact hends.mono (fun _ t ht => hkept tables hsame t ht.1) fun _ t ht => hkept tables hsame t ht.1

end VpnBot.Warp
