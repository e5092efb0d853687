import Mathlib.Data.List.TakeWhile
import VpnBot.Warp.RunEnds

/-!
# The confirmation streak

A candidate that is no pure re-aggregation is applied once it has been seen in `confirm_streak` runs in a
row.  The count lives in two keys of `schema_meta`, which a run touches only when it counts its candidate
or applies it; a run that ends otherwise leaves them, and the next sighting goes on counting.
`CountsSightings` says when no such run comes between, `StreakInv` is the invariant of those runs, and
`applied_in_a_row` the result; `not_applied_in_a_row` has a candidate that is seen, gone and seen again.
-/

namespace VpnBot.Warp

open Py Sys FeedTables

variable {service : FeedService} {x x' : FeedSystem} {s s' : ServiceState} {input : RunInput}

/-! ### The property and the condition -/

/-- The hash of a computed candidate. -/
def hashOf (candidate : Option (List Text)) : Option Text := candidate.map listHash

/-- The last `k` runs each computed the list. -/
def InARow (k : ℤ) (l : List Text) (candidates : List (Option (List Text))) : Prop :=
  ∃ n : ℕ, k ≤ n ∧ n ≤ candidates.length ∧
    ∀ c ∈ candidates.take n, ∃ l', c = some l' ∧ SameEntries l' l

/-- The candidate whose streak is stored. -/
def streakHash (tables : FeedTables) : Option Text := tables.getMeta STREAK_HASH_KEY

/-- How often it has been seen. -/
def streakCount (tables : FeedTables) : ℤ := streakOf (tables.getMeta STREAK_COUNT_KEY)

/-- No streak is open, or it is that of the candidate. -/
def NoOtherStreak (candidate : Option Text) (tables : FeedTables) : Prop :=
  streakHash tables = none ∨ streakCount tables ≤ 0 ∨ streakHash tables = candidate

instance (candidate : Option Text) (tables : FeedTables) :
    Decidable (NoOtherStreak candidate tables) := inferInstanceAs (Decidable (_ ∨ _))

/-- A run counts its candidate; or it finds no streak of another one; or it applies a pure
re-aggregation. -/
def CountsSightings (service : FeedService) (x : FeedSystem) : ServiceAction → Prop
  | .run input =>
    let s := refreshed input x.service
    match verdictOf service input s with
    | .counts _ _ => True
    | .stops => NoOtherStreak (hashOf (computed input x.service)) s.tables
    | .aggregates _ _ => NoOtherStreak (hashOf (computed input x.service)) s.tables ∨
        CanApply service.manager input.applyHost (probed input s).split s.tables
  | _ => True

/-! ### The count of a candidate -/

/-- In how many of the last runs a candidate was computed, up to the first one with another. -/
def sightings (hash : Text) (candidates : List (Option (List Text))) : ℕ :=
  (candidates.takeWhile fun c => hashOf c = some hash).length

theorem sightings_cons_self {hash : Text} {c : Option (List Text)} (h : hashOf c = some hash)
    (candidates : List (Option (List Text))) :
    sightings hash (c :: candidates) = sightings hash candidates + 1 := by
  rw [sightings, List.takeWhile_cons_of_pos (by simpa using h)]
  rfl

theorem hashOf_of_mem_take {hash : Text} {candidates : List (Option (List Text))}
    {c : Option (List Text)} (h : c ∈ candidates.take (sightings hash candidates)) :
    hashOf c = some hash := by
  have hpre : candidates.take (sightings hash candidates) =
      candidates.takeWhile fun c => hashOf c = some hash :=
    (List.prefix_iff_eq_take.1 (List.takeWhile_prefix _)).symm
  rw [hpre] at h
  have hc : decide (hashOf c = some hash) = true :=
    List.mem_takeWhile_imp (p := fun c => decide (hashOf c = some hash)) h
  exact of_decide_eq_true hc

theorem sightings_le (hash : Text) (candidates : List (Option (List Text))) :
    sightings hash candidates ≤ candidates.length :=
  (List.takeWhile_sublist _).length_le

/-! ### The stored count -/

theorem streakOf_intText (n : ℕ) : 0 ≤ streakOf (some (intText n)) ∧
    streakOf (some (intText n)) ≤ n := by
  have hread : parseInt (natText n) = some (n : ℤ) ∨ parseInt (natText n) = none := by
    by_cases hn : n < 10 ^ maxStrDigits
    · exact Or.inl (parseInt_natText hn)
    · refine Or.inr (parseInt_natText_of_le (not_lt.1 hn))
  have htext : intText n = natText n := rfl
  rw [streakOf, Option.getD_some, htext]
  rcases hread with h | h
  · rw [h]
    exact ⟨Int.natCast_nonneg n, le_rfl⟩
  · rw [h]
    exact ⟨le_rfl, Int.natCast_nonneg n⟩

/-! ### The invariant -/

/-- The stored count is at most the number of the last runs that computed its candidate. -/
def StreakInv (tables : FeedTables) (candidates : List (Option (List Text))) : Prop :=
  ∀ hash, streakHash tables = some hash →
    0 ≤ streakCount tables ∧ streakCount tables ≤ sightings hash candidates

variable {tables tables' : FeedTables} {candidates : List (Option (List Text))}
  {c : Option (List Text)} {hash : Text}

theorem StreakInv.congr (h : StreakInv tables candidates)
    (hhash : streakHash tables' = streakHash tables)
    (hcount : streakCount tables' = streakCount tables) : StreakInv tables' candidates := by
  intro hash hh
  rw [hcount]
  exact h hash (hhash ▸ hh)

theorem streakHash_bumpStreak : streakHash (bumpStreak hash tables) = some hash := by
  unfold bumpStreak streakHash FeedTables.getMeta FeedTables.setMeta
  dsimp only
  rw [Dict.get?_set_of_ne _ _ (by decide), Dict.get?_set_self]

theorem streakCount_bumpStreak :
    streakCount (bumpStreak hash tables) = streakOf (some (intText (nextStreak hash tables))) := by
  unfold bumpStreak streakCount FeedTables.getMeta FeedTables.setMeta
  dsimp only
  rw [Dict.get?_set_self]

theorem StreakInv.reset (tables : FeedTables) (candidates : List (Option (List Text))) :
    StreakInv (resetStreak tables) candidates := by
  have hcount : streakCount (resetStreak tables) = 0 := by
    unfold resetStreak streakCount FeedTables.getMeta FeedTables.setMeta
    dsimp only
    rw [Dict.get?_set_self]
    decide
  intro hash _
  rw [hcount]
  exact ⟨le_rfl, Int.natCast_nonneg _⟩

theorem nextStreak_eq (hash : Text) (tables : FeedTables) : nextStreak hash tables =
    if streakHash tables = some hash then streakCount tables + 1 else 1 := rfl

theorem StreakInv.nextStreak_le (h : StreakInv tables candidates) (hc : hashOf c = some hash) :
    0 ≤ nextStreak hash tables ∧ nextStreak hash tables ≤ sightings hash (c :: candidates) := by
  rw [sightings_cons_self hc, nextStreak_eq]
  split_ifs with hhash
  · have hcounted := h hash hhash
    omega
  · omega

theorem StreakInv.bump (h : StreakInv tables candidates) (hc : hashOf c = some hash) :
    StreakInv (bumpStreak hash tables) (c :: candidates) := by
  obtain ⟨hnonneg, hle⟩ := h.nextStreak_le hc
  obtain ⟨n, hn⟩ := Int.eq_ofNat_of_zero_le hnonneg
  have hread := streakOf_intText n
  rw [hn] at hle
  intro hash' hhash'
  rw [streakHash_bumpStreak] at hhash'
  cases hhash'
  rw [streakCount_bumpStreak, hn]
  exact ⟨hread.1, hread.2.trans hle⟩

theorem StreakInv.skip (h : StreakInv tables candidates) (hno : NoOtherStreak (hashOf c) tables) :
    StreakInv tables (c :: candidates) := by
  intro hash hhash
  obtain ⟨hnonneg, hcounted⟩ := h hash hhash
  refine ⟨hnonneg, ?_⟩
  rcases hno with hnone | hzero | hsame
  · rw [hnone] at hhash
    cases hhash
  · exact hzero.trans (Int.natCast_nonneg _)
  · rw [sightings_cons_self (hsame.symm.trans hhash)]
    omega

/-! ### One call -/

theorem metaRows_refreshSources (fetches : Text → FetchOutcome) (now : ℤ) (tables : FeedTables) :
    (refreshSources fetches now tables).metaRows = tables.metaRows := by
  have hone : ∀ (t : FeedTables) (source : SplitSource),
      (refreshOne fetches now t source).metaRows = t.metaRows := by
    intro t source
    unfold refreshOne
    split
    · rfl
    · split_ifs <;> rfl
  have hfold : ∀ (sources : List SplitSource) (t : FeedTables),
      (sources.foldl (refreshOne fetches now) t).metaRows = t.metaRows := by
    intro sources
    induction sources with
    | nil => intro t; rfl
    | cons source sources ih => intro t; rw [List.foldl_cons, ih, hone]
  exact hfold _ tables

theorem metaRows_captureBaseline (s : ServiceState) :
    (captureBaseline s).tables.metaRows = s.tables.metaRows := by
  unfold captureBaseline
  dsimp only
  split_ifs <;> rfl

theorem StreakInv.refreshed (h : StreakInv s.tables candidates) (input : RunInput) :
    StreakInv (refreshed input s).tables candidates := by
  have hadopt : SameFeeds s.tables (adopt s.file s.tables) := .adopt s.file
  have hrows : (Warp.refreshed input s).tables.metaRows = (adopt s.file s.tables).metaRows := by
    unfold Warp.refreshed
    dsimp only
    rw [ServiceState.tables_withTables, metaRows_refreshSources]
    unfold reconcileBaseline
    split_ifs
    · exact metaRows_captureBaseline _
    · rfl
  refine h.congr ?_ ?_
  · unfold streakHash FeedTables.getMeta
    rw [hrows]
    exact hadopt.streakHash
  · unfold streakCount FeedTables.getMeta
    rw [hrows]
    exact congrArg streakOf hadopt.streakCount

/-- The candidate that is counted is the one that the run computes, and no pure re-aggregation. -/
theorem candidate_of_counts {plan : MergePlan} {analysis : ChangeAnalysis}
    (h : verdictOf service input s = .counts plan analysis) :
    candidateOf s = .ok plan ∧ analysis.listHash = listHash plan.prefixes := by
  have hgoes : verdictOf service input s ≠ .stops := by
    rw [h]
    exact nofun
  obtain ⟨plan', hcandidate, hpassed⟩ := verdictOf_of_ne_stops hgoes
  rw [h, passedVerdict] at hpassed
  split_ifs at hpassed
  cases hpassed
  exact ⟨hcandidate, rfl⟩

theorem pureAggregation_of_aggregates {plan : MergePlan} {analysis : ChangeAnalysis}
    (h : verdictOf service input s = .aggregates plan analysis) :
    analysis.pureAggregation = true := by
  have hgoes : verdictOf service input s ≠ .stops := by
    rw [h]
    exact nofun
  obtain ⟨plan', hcandidate, hpassed⟩ := verdictOf_of_ne_stops hgoes
  rw [h, passedVerdict] at hpassed
  split_ifs at hpassed with hheld hpure
  cases hpassed
  exact hpure

theorem hashOf_of_counts {plan : MergePlan} {analysis : ChangeAnalysis}
    (h : verdictOf service input (refreshed input s) = .counts plan analysis) :
    computed input s = some plan.prefixes ∧ hashOf (computed input s) = some analysis.listHash := by
  obtain ⟨hcandidate, hhash⟩ := candidate_of_counts h
  have hcomputed : computed input s = some plan.prefixes := by
    rw [computed, hcandidate]
    rfl
  exact ⟨hcomputed, by rw [hcomputed, hhash]; rfl⟩

theorem StreakInv.run (h : StreakInv x.service.tables x.candidates)
    (hcounts : CountsSightings service x (.run input)) {result : Option CycleResult}
    (hend : RunEnd service input (Warp.refreshed input x.service) result s'
      (verdictOf service input (Warp.refreshed input x.service))) :
    StreakInv s'.tables (computed input x.service :: x.candidates) := by
  have hinv := h.refreshed input
  unfold CountsSightings at hcounts
  dsimp only at hcounts
  cases hverdict : verdictOf service input (Warp.refreshed input x.service) with
  | stops =>
    rw [hverdict] at hend hcounts
    rw [hend.2.1]
    exact hinv.skip hcounts
  | aggregates plan analysis =>
    rw [hverdict] at hend hcounts
    obtain ⟨-, hend⟩ := hend
    cases happlied : appliedBy result with
    | none =>
      rw [happlied] at hend
      obtain ⟨htables, -, hrefused⟩ := hend
      rw [htables]
      exact hinv.skip (hcounts.resolve_right hrefused)
    | some outcome =>
      rw [happlied] at hend
      obtain ⟨-, t, -, rfl⟩ := hend
      exact StreakInv.reset _ _
  | counts plan analysis =>
    rw [hverdict] at hend
    obtain ⟨-, hend⟩ := hend
    have hbump := hinv.bump (hashOf_of_counts hverdict).2
    split_ifs at hend with hwaits
    · rw [hend.2]
      exact hbump
    · cases happlied : appliedBy result with
      | none =>
        rw [happlied] at hend
        rw [hend.1]
        exact hbump
      | some outcome =>
        rw [happlied] at hend
        obtain ⟨-, t, -, rfl⟩ := hend
        exact StreakInv.reset _ _

/-- **Every call keeps the invariant**, when the runs count sightings. -/
theorem streakInv_step (a : ServiceAction) (h : StreakInv x.service.tables x.candidates)
    (hcounts : CountsSightings service x a) (hstep : serviceStep service x a = some x') :
    StreakInv x'.service.tables x'.candidates := by
  cases a with
  | run input =>
    cases hstep
    exact h.run hcounts (runEnd_runCycle service input x.service)
  | approve host =>
    cases hstep
    refine (ends_applyPending service host x.service).mono ?_ ?_ |>.result
      (R := fun _ s' => StreakInv s'.tables x.candidates)
    · rintro - s' ⟨-, -, t, -, rfl⟩
      exact StreakInv.reset _ _
    · rintro - s' ⟨htables, -⟩
      exact htables ▸ h
  | reject =>
    cases hstep
    exact h
  | edit e host =>
    cases hstep
    refine (ends_outcome service host e x.service).mono ?_ ?_ |>.result
      (R := fun _ s' => StreakInv s'.tables x.candidates)
    · rintro - s' ⟨hsame, -⟩
      exact h.congr hsame.streakHash (congrArg streakOf hsame.streakCount)
    · rintro - s' ⟨hsame, -⟩
      exact h.congr hsame.streakHash (congrArg streakOf hsame.streakCount)
  | write file =>
    cases hstep
    exact h

theorem oneLine_of_computed {l : List Text} (h : computed input s = some l) : OneLine l := by
  unfold computed at h
  cases hcandidate : candidateOf (refreshed input s) with
  | error e =>
    rw [hcandidate] at h
    cases h
  | ok plan =>
    rw [hcandidate] at h
    cases h
    exact oneLine_of_planOf hcandidate

/-- The candidates of the past are lists of networks. -/
def OneLines (candidates : List (Option (List Text))) : Prop :=
  ∀ l, some l ∈ candidates → OneLine l

theorem OneLines.run (h : OneLines candidates) (input : RunInput) (s : ServiceState) :
    OneLines (computed input s :: candidates) := by
  intro l hl
  rcases List.mem_cons.1 hl with hl | hl
  · exact oneLine_of_computed hl.symm
  · exact h l hl

theorem oneLines_step (a : ServiceAction) (h : OneLines x.candidates)
    (hstep : serviceStep service x a = some x') : OneLines x'.candidates := by
  cases a with
  | run input =>
    cases hstep
    exact h.run input x.service
  | approve host | reject | edit e host | write file =>
    cases hstep
    exact h

theorem inARow_sightings {l : List Text} (hl : OneLine l) (h : OneLines candidates) {k : ℤ}
    (hk : k ≤ sightings (listHash l) candidates) : InARow k l candidates := by
  refine ⟨_, hk, sightings_le _ _, fun c hc => ?_⟩
  have hhash := hashOf_of_mem_take hc
  have hmem := List.mem_of_mem_take hc
  cases c with
  | none => cases hhash
  | some l' => exact ⟨l', rfl, sameEntries_of_listHash (h l' hmem) hl (Option.some.inj hhash)⟩

theorem streakInv_runFrom {actions : List ServiceAction} (hstart : streakHash s.tables = none)
    (hcounts : Allowed (serviceStep service) (CountsSightings service) (atStart s) actions)
    (hrun : runFrom (serviceStep service) (atStart s) actions = some x) :
    StreakInv x.service.tables x.candidates ∧ OneLines x.candidates := by
  let inv (x : FeedSystem) : Prop := StreakInv x.service.tables x.candidates ∧ OneLines x.candidates
  have hstep : ∀ x a x', inv x → CountsSightings service x a → serviceStep service x a = some x' →
      inv x' := fun _ a _ h hc hs => ⟨streakInv_step a h.1 hc hs, oneLines_step a h.2 hs⟩
  have hzero : inv (atStart s) := by
    refine ⟨fun hash hhash => ?_, nofun⟩
    have hnone : none = some hash := hstart.symm.trans hhash
    cases hnone
  have hinv : inv x := invariant_of_allowed hstep hzero hcounts hrun
  exact hinv

/-- **A candidate that is no pure re-aggregation is applied only when the last runs all computed it**, if
no run comes between that neither counts its candidate nor resets the streak. -/
theorem applied_in_a_row {service : FeedService} {s : ServiceState} {actions : List ServiceAction}
    {x : FeedSystem} {input : RunInput} {result : CycleResult} {analysis : ChangeAnalysis}
    (hstart : streakHash s.tables = none)
    (hcounts : Allowed (serviceStep service) (CountsSightings service) (atStart s) actions)
    (hrun : runFrom (serviceStep service) (atStart s) actions = some x)
    (hresult : (Program.result (runCycle service input) x.service).1 = some result)
    (happlied : result.applies = true) (hanalysis : result.analysis = some analysis)
    (hpure : analysis.pureAggregation = false) :
    ∃ l, computed input x.service = some l ∧ listHash l = analysis.listHash ∧
      InARow (max 1 service.confirmStreak) l (computed input x.service :: x.candidates) := by
  obtain ⟨hinv, hlines⟩ := streakInv_runFrom hstart hcounts hrun
  have hend := runEnd_runCycle service input x.service
  rw [hresult] at hend
  have happ : appliedBy (some result) ≠ none := by
    intro hnone
    have hout : result.outcome = none := hnone
    rw [CycleResult.applies, hout] at happlied
    cases happlied
  cases hverdict : verdictOf service input (refreshed input x.service) with
  | stops =>
    rw [hverdict] at hend
    exact absurd hend.1 happ
  | aggregates plan analysis' =>
    rw [hverdict] at hend
    cases hanalysis.symm.trans (hend.1 result rfl)
    rw [pureAggregation_of_aggregates hverdict] at hpure
    cases hpure
  | counts plan analysis' =>
    rw [hverdict] at hend
    obtain ⟨hsame, hend⟩ := hend
    cases hanalysis.symm.trans (hsame result rfl)
    obtain ⟨hcomputed, hhash⟩ := hashOf_of_counts hverdict
    have hl : listHash plan.prefixes = analysis.listHash := (candidate_of_counts hverdict).2.symm
    refine ⟨plan.prefixes, hcomputed, hl, ?_⟩
    split_ifs at hend with hwaits
    · exact absurd hend.1 happ
    · obtain ⟨-, hle⟩ := (hinv.refreshed input).nextStreak_le hhash
      rw [← hl] at hle hwaits
      exact inARow_sightings (oneLine_of_computed hcomputed) (hlines.run input x.service)
        ((not_lt.1 hwaits).trans hle)

/-- What a run with these networks returns: whether it has applied a pure re-aggregation. -/
def applies (service : FeedService) (networks : List IPv4Network) (x : FeedSystem) :
    Option (Bool × Option Bool) :=
  (Program.result (runCycle service (publishedRun networks)) x.service).1.map fun result =>
    (result.applies, result.analysis.map ChangeAnalysis.pureAggregation)

theorem result_of_applies {networks : List IPv4Network}
    (h : applies service networks x = some (true, some false)) :
    ∃ result analysis,
      (Program.result (runCycle service (publishedRun networks)) x.service).1 = some result ∧
        result.applies = true ∧ result.analysis = some analysis ∧
          analysis.pureAggregation = false := by
  obtain ⟨result, hresult, hpair⟩ := Option.map_eq_some_iff.1 h
  obtain ⟨happlied, hmap⟩ := Prod.mk.inj hpair
  obtain ⟨analysis, hanalysis, hpure⟩ := Option.map_eq_some_iff.1 hmap
  exact ⟨result, analysis, hresult, happlied, hanalysis, hpure⟩

/-- The feed publishes the same networks twice. -/
theorem applied_in_a_row_twice :
    ∃ x l, runFrom (serviceStep (autoFeeds 2)) (atStart unfetched)
        [.run (publishedRun [net91, net149])] = some x ∧
      InARow 2 l (computed (publishedRun [net91, net149]) x.service :: x.candidates) := by
  have happlies : (runFrom (serviceStep (autoFeeds 2)) (atStart unfetched)
      [.run (publishedRun [net91, net149])]).bind (applies (autoFeeds 2) [net91, net149]) =
        some (true, some false) := by decide +kernel
  obtain ⟨x, hrun, happ⟩ := Option.bind_eq_some_iff.1 happlies
  obtain ⟨result, analysis, hresult, happlied, hanalysis, hpure⟩ := result_of_applies happ
  have hcounts : Allowed (serviceStep (autoFeeds 2)) (CountsSightings (autoFeeds 2))
      (atStart unfetched) [.run (publishedRun [net91, net149])] := by
    refine ⟨?_, fun _ _ => trivial⟩
    unfold CountsSightings
    dsimp only
    have hnone : streakHash (refreshed (publishedRun [net91, net149])
        (atStart unfetched).service).tables = none := by decide +kernel
    split
    · exact trivial
    · exact Or.inl hnone
    · exact Or.inl (Or.inl hnone)
  obtain ⟨l, -, -, hrow⟩ :=
    applied_in_a_row rfl hcounts hrun hresult happlied hanalysis hpure
  exact ⟨x, l, hrun, hrow⟩

/-- A candidate is seen, the next run finds the old list, and then it is seen again. -/
def seenAndGone : List ServiceAction :=
  [.run (publishedRun [net91, net149]), .run (publishedRun [net91, net149]),
    .run (publishedRun [net91, net149, net8]), .run (publishedRun [net91, net149])]

/-- The list of the first candidate. -/
def listWithout : List Text := ["91.108.4.0/22".toList, "149.154.160.0/20".toList]

/-- The list of the candidate that comes and goes. -/
def listWith : List Text := "8.8.8.0/24".toList :: listWithout

/-- **A run without a change does not end the streak.** -/
theorem not_applied_in_a_row :
    ¬ ∀ (service : FeedService) (s : ServiceState) (actions : List ServiceAction) (x : FeedSystem)
      (input : RunInput) (result : CycleResult) (analysis : ChangeAnalysis), service.mode = .auto →
        streakHash s.tables = none →
        runFrom (serviceStep service) (atStart s) actions = some x →
        (Program.result (runCycle service input) x.service).1 = some result →
        result.applies = true → result.analysis = some analysis →
        analysis.pureAggregation = false →
          ∃ l, computed input x.service = some l ∧ listHash l = analysis.listHash ∧
            InARow (max 1 service.confirmStreak) l (computed input x.service :: x.candidates) := by
  intro h
  have happlies : (runFrom (serviceStep (autoFeeds 2)) (atStart unfetched) seenAndGone).bind
      (applies (autoFeeds 2) [net91, net149, net8]) = some (true, some false) := by
    decide +kernel
  have hlists : (runFrom (serviceStep (autoFeeds 2)) (atStart unfetched) seenAndGone).map
      (fun x => (x.candidates.head?, computed (publishedRun [net91, net149, net8]) x.service)) =
        some (some (some listWithout), some listWith) := by
    decide +kernel
  obtain ⟨x, hrun, happ⟩ := Option.bind_eq_some_iff.1 happlies
  obtain ⟨result, analysis, hresult, happlied, hanalysis, hpure⟩ := result_of_applies happ
  rw [hrun] at hlists
  obtain ⟨hhead, hcomputed⟩ := Prod.mk.inj (Option.some.inj hlists)
  obtain ⟨l, hl, -, n, hn, -, hall⟩ :=
    h _ _ _ x _ result analysis rfl rfl hrun hresult happlied hanalysis hpure
  cases hl.symm.trans hcomputed
  obtain ⟨rest, hcandidates⟩ : ∃ rest, x.candidates = some listWithout :: rest :=
    List.head?_eq_some_iff.1 hhead
  have hmem : some listWithout ∈ (computed (publishedRun [net91, net149, net8]) x.service ::
      x.candidates).take n := by
    obtain ⟨m, rfl⟩ : ∃ m, n = m + 2 := Nat.exists_eq_add_of_le' (Int.ofNat_le.1 hn)
    rw [hcandidates, List.take_succ_cons, List.take_succ_cons]
    exact List.mem_cons_of_mem _ List.mem_cons_self
  obtain ⟨l', hl', hsame⟩ := hall _ hmem
  cases hl'
  rcases hsame with hentries | ⟨-, hdigest⟩
  · exact absurd ((hentries "8.8.8.0/24".toList).2 List.mem_cons_self) (by decide)
  · have hne : Sha256.hexdigest (hashedText listWithout) ≠ Sha256.hexdigest (hashedText listWith) := by
      decide +kernel
    exact hne hdigest

end VpnBot.Warp
