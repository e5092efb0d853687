import VpnBot.Warp.ManualRows
import VpnBot.Warp.RunEnds

/-!
# What an edit changes in the routing

An edit writes its rows and then merges and applies everything that is stored, so its frame is that of the
stored state and not that of the list file: `edit_frame`.  Where the file does not route what the stored
state merges to, because a fetched change is held or was declined, the edit applies the difference as well;
`not_edit_frame` is such an edit.

`routed_renderList` is the round trip of the list file, and `ends_outcome_of` runs an edit up to its apply.
-/

namespace VpnBot.Warp

open Py Py.Network Sys FeedTables

/-! ### Reading a list back -/

theorem mem_join {d c : Char} {l : List Text} (h : c ∈ join d l) : c = d ∨ ∃ t ∈ l, c ∈ t := by
  induction l with
  | nil => cases h
  | cons t l ih =>
    cases l with
    | nil =>
      have hjoin : join d [t] = t := by simp [join, List.intercalate]
      exact Or.inr ⟨t, List.mem_cons_self, hjoin ▸ h⟩
    | cons u l =>
      have hjoin : join d (t :: u :: l) = t ++ d :: join d (u :: l) := by
        simp [join, List.intercalate]
      rw [hjoin, List.mem_append, List.mem_cons] at h
      rcases h with h | h | h
      · exact Or.inr ⟨t, List.mem_cons_self, h⟩
      · exact Or.inl h
      · rcases ih h with hd | ⟨v, hv, hc⟩
        · exact Or.inl hd
        · exact Or.inr ⟨v, List.mem_cons_of_mem _ hv, hc⟩

theorem char_of_mem_text {n : IPv4Network} {c : Char} (h : c ∈ IPv4.text n) :
    c.isDigit = true ∨ c = '.' ∨ c = '/' := by
  rcases mem_join h with hslash | ⟨t, ht, hc⟩
  · exact Or.inr (Or.inr hslash)
  rcases List.mem_cons.1 ht with rfl | ht
  · rcases mem_join hc with hdot | ⟨u, hu, hc⟩
    · exact Or.inr (Or.inl hdot)
    · obtain ⟨k, -, rfl⟩ := List.mem_map.1 hu
      exact Or.inl (isDigit_of_mem_natText hc)
  · cases List.mem_singleton.1 ht
    exact Or.inl (isDigit_of_mem_natText hc)

theorem isSpace_of_mem_text {n : IPv4Network} {c : Char} (h : c ∈ IPv4.text n) :
    isSpace c = false := by
  rcases char_of_mem_text h with hdigit | rfl | rfl
  · exact isSpace_of_isDigit hdigit
  · rfl
  · rfl

theorem isLineBreak_of_mem_text {n : IPv4Network} {c : Char} (h : c ∈ IPv4.text n) :
    isLineBreak c = false := by
  have hspace := isSpace_of_mem_text h
  simp only [isSpace, isLineBreak, Bool.or_eq_false_iff, Bool.and_eq_false_iff,
    decide_eq_false_iff_not] at hspace ⊢
  omega

theorem beforeComment_text (n : IPv4Network) : beforeComment (IPv4.text n) = IPv4.text n := by
  have hhash : ∀ t : Text, '#' ∉ t → splitOnce '#' t = none := by
    intro t
    induction t with
    | nil => exact fun _ => rfl
    | cons c t ih =>
      intro ht
      rw [List.mem_cons, not_or] at ht
      rw [splitOnce, if_neg (Ne.symm ht.1), ih ht.2]
      rfl
  have hnot : '#' ∉ IPv4.text n := by
    intro h
    rcases char_of_mem_text h with hdigit | hdot | hslash
    · exact absurd hdigit (by decide)
    · exact absurd hdot (by decide)
    · exact absurd hslash (by decide)
  rw [beforeComment, hhash _ hnot]
  rfl

theorem splitlines_renderList {l : List Text} (hne : l ≠ [])
    (hbreaks : ∀ t ∈ l, ∀ c ∈ t, isLineBreak c = false) : splitlines (renderList l) = l := by
  induction l with
  | nil => exact absurd rfl hne
  | cons t l ih =>
    have ht := hbreaks t List.mem_cons_self
    cases l with
    | nil =>
      have hrender : renderList [t] = t ++ '\n' :: [] := by simp [renderList, join, List.intercalate]
      rw [hrender, splitlines_append_newline ht]
      rfl
    | cons u l =>
      have hrender : renderList (t :: u :: l) = t ++ '\n' :: renderList (u :: l) := by
        simp [renderList, join, List.intercalate]
      rw [hrender, splitlines_append_newline ht,
        ih (List.cons_ne_nil u l) fun v hv => hbreaks v (List.mem_cons_of_mem _ hv)]

/-- The addresses that the list file routes. -/
def routed (file : Option Text) : Set ℕ := IPv4.textCover (readList file)

/-- **A written list routes its networks.** -/
theorem routed_renderList {networks : List IPv4Network} (hne : networks ≠ []) :
    routed (some (renderList (networks.map IPv4.text))) = cover networks := by
  have hlines : splitlines (renderList (networks.map IPv4.text)) = networks.map IPv4.text := by
    refine splitlines_renderList (by simpa using hne) fun t ht c hc => ?_
    obtain ⟨n, -, rfl⟩ := List.mem_map.1 ht
    exact isLineBreak_of_mem_text hc
  have hread : ∀ n : IPv4Network, ipNetwork (strip (beforeComment (IPv4.text n))) = some n := by
    intro n
    rw [beforeComment_text, strip_eq_self fun c hc => isSpace_of_mem_text hc]
    exact IPv4.parse_text false n
  have hnetworks : (networks.map IPv4.text).filterMap
      (fun raw => ipNetwork (strip (beforeComment raw))) = networks := by
    rw [List.filterMap_map]
    have hcomp : (fun raw => ipNetwork (strip (beforeComment raw))) ∘ IPv4.text = some :=
      funext hread
    rw [hcomp, List.filterMap_some]
  rw [routed, readList, hlines, hnetworks, IPv4.textCover_map_text, sortNetworks, cover_sort]

/-! ### What is stored -/

/-- The slugs are unique, and none is that of the manual list. -/
structure ValidSources (tables : FeedTables) : Prop where
  nodup : (tables.sources.map SplitSource.slug).Nodup
  reserved : ∀ source ∈ tables.sources, source.slug ≠ MANUAL_ORIGIN

/-- The addresses that the stored state merges to. -/
def StoredSet (tables : FeedTables) : Set ℕ :=
  SplitSet (toNetworks tables.manualPrefixes) (contributionsOf tables) (toNetworks tables.exclusions)

variable {tables tables' : FeedTables}

theorem textCover_mergedList (h : ValidSources tables) :
    IPv4.textCover (mergedList tables) = StoredSet tables := by
  have hslugs : (contributionsOf tables).map SourceContribution.slug =
      (tables.sources.filter SplitSource.takesPart).map SplitSource.slug := by
    rw [contributionsOf, List.map_map]
    rfl
  have hnodup : ((contributionsOf tables).map SourceContribution.slug).Nodup := by
    rw [hslugs]
    exact h.nodup.sublist (List.filter_sublist.map _)
  have hreserved : ∀ c ∈ contributionsOf tables, c.slug ≠ MANUAL_ORIGIN := by
    intro c hc
    obtain ⟨source, hsource, rfl⟩ := List.mem_map.1 hc
    exact h.reserved source (List.mem_filter.1 hsource).1
  obtain ⟨report, hreport, hcover⟩ := textCover_mergeSplitList (toNetworks tables.manualPrefixes)
    (contributionsOf tables) (toNetworks tables.exclusions) hnodup hreserved
  rw [mergedList, hreport]
  exact hcover

theorem exists_mergedList (tables : FeedTables) :
    ∃ networks : List IPv4Network, mergedList tables = networks.map IPv4.text := by
  unfold mergedList
  cases hmerge : mergeSplitList (toNetworks tables.manualPrefixes) (contributionsOf tables)
      (toNetworks tables.exclusions) with
  | none => exact ⟨[], rfl⟩
  | some report => exact prefixes_of_mergeSplitList hmerge

theorem routed_mergedList (h : ValidSources tables) (hne : mergedList tables ≠ []) :
    routed (some (renderList (mergedList tables))) = StoredSet tables := by
  rw [← textCover_mergedList h]
  obtain ⟨networks, hnetworks⟩ := exists_mergedList tables
  rw [hnetworks] at hne ⊢
  rw [routed_renderList fun hnil => hne (by rw [hnil]; rfl), IPv4.textCover_map_text]

theorem contributionsOf_congr (h : ValidSources tables) (hsame : SameFeeds tables tables') :
    contributionsOf tables' = contributionsOf tables := by
  unfold contributionsOf
  rw [hsame.sources]
  refine List.map_congr_left fun source hsource => ?_
  rw [hsame.stored source.slug (h.reserved source (List.mem_filter.1 hsource).1)]

theorem mem_storedSet_congr (h : ValidSources tables) (hsame : SameFeeds tables tables') {a : ℕ}
    (hmanual : a ∈ IPv4.textCover tables'.manualPrefixes ↔ a ∈ IPv4.textCover tables.manualPrefixes)
    (hexclusions : a ∈ IPv4.textCover tables'.exclusions ↔ a ∈ IPv4.textCover tables.exclusions) :
    a ∈ StoredSet tables' ↔ a ∈ StoredSet tables := by
  rw [StoredSet, StoredSet, contributionsOf_congr h hsame]
  simp only [SplitSet, Set.mem_sdiff, Set.mem_union, cover_toNetworks, hmanual, hexclusions]

theorem ValidSources.congr (h : ValidSources tables) (hsame : SameFeeds tables tables') :
    ValidSources tables' := by
  constructor
  · rw [hsame.sources]
    exact h.nodup
  · rw [hsame.sources]
    exact h.reserved

/-! ### The addresses of an edit -/

/-- The addresses of the tokens or prefixes that an edit is given; a migration is given none and may
change any manual row. -/
def Edit.addresses : Edit → Set ℕ
  | .addManual tokens => IPv4.textCover (tokens.map strip)
  | .removeManualMany ps => IPv4.textCover ps
  | .excludePrefix p | .unexcludePrefix p => IPv4.textCover [p]
  | .migrateManualIntoFeeds => Set.univ

/-- The stored state that an edit starts from: the first one takes the list file over. -/
def Edit.before (s : SplitState) : Edit → FeedTables
  | .unexcludePrefix _ => s.tables
  | .addManual _ | .removeManualMany _ | .excludePrefix _ | .migrateManualIntoFeeds =>
    adopt s.file s.tables

theorem textCover_congr {l l' : List Text} (h : ∀ p, p ∈ l ↔ p ∈ l') :
    IPv4.textCover l = IPv4.textCover l' := by
  ext a
  simp only [mem_textCover, h]

theorem textCover_processAddTokens (manager : SplitManager) (host : Host) (endpointIp : Option ℕ)
    (tokens current : List Text) :
    IPv4.textCover (processAddTokens manager host endpointIp tokens current).2 ⊆
      IPv4.textCover (tokens.map strip) := by
  rintro a ⟨p, hp, n, hn, ha⟩
  obtain ⟨raw, hraw, -, seen, hadded, rfl⟩ := mem_addTokensLoop hp
  obtain ⟨m, hm, htext, -⟩ := validateAdd_added hadded
  rw [htext, IPv4.parse_text] at hn
  exact ⟨strip raw, List.mem_map_of_mem hraw, n, hm.trans hn, ha⟩

/-- **The table part of an edit changes the merge inside its addresses only.** -/
theorem storedSet_of_step (manager : SplitManager) (host : Host) (s : SplitState) (e : Edit)
    (hvalid : ValidSources s.tables) (hstep : e.step manager host s = .applies tables) {a : ℕ}
    (ha : a ∉ e.addresses) : a ∈ StoredSet tables ↔ a ∈ StoredSet (e.before s) := by
  have hsame : SameFeeds s.tables (adopt s.file s.tables) := .adopt s.file
  have hadopted := hvalid.congr hsame
  cases e with
  | addManual tokens =>
    simp only [Edit.step] at hstep
    split_ifs at hstep
    cases hstep
    -- only the accepted tokens become rows, and each lies inside the addresses of the edit
    generalize haccepted : (processAddTokens manager host (host.probe <|> s.endpointIp) tokens
      ((adopt s.file s.tables).manualPrefixes ++ readList s.file)).2 = accepted
    refine mem_storedSet_congr hadopted (SameFeeds.addManual _) ?_ Iff.rfl
    have hset : ∀ p, p ∈ (addManualPrefixes accepted (adopt s.file s.tables)).manualPrefixes ↔
        p ∈ (adopt s.file s.tables).manualPrefixes ++ accepted := fun p =>
      mem_prefixesFor_insertPrefixes.trans List.mem_append.symm
    rw [textCover_congr hset, textCover_append, Set.mem_union]
    refine or_iff_left fun hin => ha ?_
    rw [← haccepted] at hin
    exact textCover_processAddTokens _ _ _ _ _ hin
  | removeManualMany ps =>
    simp only [Edit.step] at hstep
    -- rows that contain a removed prefix are split, so the others keep their addresses
    cases hrows : manualRowsWithout (adopt s.file s.tables).manualPrefixes ps with
    | none =>
      rw [hrows] at hstep
      cases hstep
    | some rows =>
      rw [hrows] at hstep
      cases hstep
      refine mem_storedSet_congr hadopted ((SameFeeds.removeManual _).trans (SameFeeds.addManual _))
        ?_ Iff.rfl
      have hset : ∀ p, p ∈ (addManualPrefixes rows.2
          (removeManualPrefixes rows.1 (adopt s.file s.tables))).manualPrefixes ↔
          p ∈ (adopt s.file s.tables).manualPrefixes ∧ p ∉ rows.1 ∨ p ∈ rows.2 := fun p =>
        mem_prefixesFor_insertPrefixes.trans (or_congr_left mem_manualPrefixes_removeManualPrefixes)
      rw [(takesOut_manualRowsWithout hrows).textCover hset]
      exact and_iff_left ha
  | excludePrefix p =>
    cases hstep
    have hexclude : SameFeeds (adopt s.file s.tables) ((adopt s.file s.tables).addExclusion p) :=
      ⟨rfl, fun _ _ => rfl, rfl, rfl, rfl⟩
    refine mem_storedSet_congr hadopted (hexclude.trans (SameFeeds.removeManual _)) ?_ ?_
    · simp only [mem_textCover, mem_manualPrefixes_removeManualPrefixes, List.mem_singleton]
      constructor
      · rintro ⟨t, ⟨ht, -⟩, hn⟩
        exact ⟨t, ht, hn⟩
      · rintro ⟨t, ht, hn⟩
        refine ⟨t, ⟨ht, ?_⟩, hn⟩
        rintro rfl
        exact ha (mem_textCover_singleton.2 hn)
    · simp only [mem_textCover]
      constructor
      · rintro ⟨t, ht, hn⟩
        rcases mem_insertOrIgnore.1 (mem_exclusions.1 ht) with ht | rfl
        · exact ⟨t, mem_exclusions.2 ht, hn⟩
        · exact absurd (mem_textCover_singleton.2 hn) ha
      · rintro ⟨t, ht, hn⟩
        exact ⟨t, mem_exclusions.2 (mem_insertOrIgnore.2 (Or.inl (mem_exclusions.1 ht))), hn⟩
  | unexcludePrefix p =>
    cases hstep
    have hsame : SameFeeds s.tables (s.tables.removeExclusion p) :=
      ⟨rfl, fun _ _ => rfl, rfl, rfl, rfl⟩
    refine mem_storedSet_congr hvalid hsame Iff.rfl ?_
    simp only [mem_textCover, mem_exclusions, removeExclusion, List.mem_filter, decide_eq_true_eq]
    constructor
    · rintro ⟨t, ⟨ht, -⟩, hn⟩
      exact ⟨t, ht, hn⟩
    · rintro ⟨t, ht, hn⟩
      refine ⟨t, ⟨ht, ?_⟩, hn⟩
      rintro rfl
      exact ha (mem_textCover_singleton.2 hn)
  -- the migration may change every address, so no address lies outside the edit
  | migrateManualIntoFeeds => exact absurd (Set.mem_univ a) ha

/-! ### The apply of an edit -/

def WritesList (host : Host) : Prop :=
  ∀ (networks : List IPv4Network) (file : Option Text) (detail : Text) (file' : Option Text),
    networks ≠ [] →
      host.applyHelper (renderList (networks.map IPv4.text)) file = .exited 0 detail file' →
        file' = some (renderList (networks.map IPv4.text))

theorem ends_applyLocked_file {manager : SplitManager} {host : Host} (hwrites : WritesList host)
    (networks : List IPv4Network) (s : SplitState) :
    Program.Ends (applyLocked manager host (networks.map IPv4.text) false)
      (fun _ s' => networks ≠ [] ∧ s'.file = some (renderList (networks.map IPv4.text)))
      (fun _ _ => True) s := by
  rw [applyLocked]
  by_cases hempty : (networks.map IPv4.text).isEmpty
  · rw [if_pos hempty, Program.ends_throw]
    trivial
  have hne : networks ≠ [] := by
    rintro rfl
    exact hempty rfl
  rw [if_neg hempty]
  simp only [checkCandidate, refreshEndpoint, Program.ends_bind, Program.ends_get,
    Program.ends_modify, Program.ends_ofExcept, Bool.not_false, Bool.true_and, decide_eq_true_eq]
  refine ⟨fun _ _ => ?_, fun _ _ => trivial⟩
  split_ifs with hfile
  · exact ⟨hne, hfile⟩
  simp only [runHelper, Program.ends_bind, Program.ends_get, Program.ends_modify, Program.ends_pure]
  cases hrun : host.applyHelper (renderList (networks.map IPv4.text)) s.file with
  | raised file => trivial
  | exited returncode detail file =>
    dsimp only
    split_ifs with hcode
    · rw [Program.ends_bind]
      exact ends_restorePrevious host _ fun _ _ => trivial
    · rw [not_not] at hcode
      rw [hcode] at hrun
      exact ⟨hne, hwrites networks s.file detail file hne hrun⟩

/-- **After an apply the file routes what the stored state merges to.** -/
theorem ends_applyComputed_routed {manager : SplitManager} {host : Host} (hwrites : WritesList host)
    {s : SplitState} (hvalid : ValidSources s.tables) :
    Program.Ends (applyComputed manager host recomputeForApply)
      (fun _ s' => routed s'.file = StoredSet s.tables) (fun _ _ => True) s := by
  rw [applyComputed, Program.ends_bind]
  refine (ends_recomputeForApply s).mono ?_ fun _ _ _ => trivial
  rintro l s' ⟨rfl, -, rfl⟩
  obtain ⟨networks, hnetworks⟩ := exists_mergedList s'.tables
  rw [hnetworks]
  refine (ends_applyLocked_file hwrites networks s').mono ?_ fun _ _ _ => trivial
  rintro - s'' ⟨hne, hfile⟩
  rw [hfile, ← hnetworks]
  refine routed_mergedList hvalid ?_
  rw [hnetworks]
  simpa using hne

/-! ### The edits -/

/-- **A run of an edit is that of its table part**, and of an apply if it comes to one. -/
theorem ends_outcome_of {service : FeedService} {host : Host} {e : Edit} {s : SplitState}
    {P : Option ApplyOutcome → SplitState → Prop} {Q : SplitError → SplitState → Prop}
    (hraises : ∀ error s', Q error s')
    (h : match e.step service.manager host s with
      | .raises _ => True
      | .returns tables => ∀ s₁ : SplitState, s₁.tables = tables → s₁.file = s.file → P none s₁
      | .applies tables => ∀ s₁ : SplitState, s₁.tables = tables → s₁.file = s.file →
          Program.Ends (applyComputed service.manager host recomputeForApply)
            (fun outcome => P (some outcome)) Q s₁) :
    Program.Ends (e.outcome service host) P Q s := by
  cases e with
  | addManual tokens =>
    simp only [Edit.outcome, addManual, ensureManualAdopted, refreshEndpoint, change,
      Program.ends_map, Program.ends_bind, Program.ends_modify, Program.ends_get]
    simp only [Edit.step] at h
    split_ifs at h ⊢ with hnone
    · exact h _ rfl rfl
    · simp only [Program.ends_bind, Program.ends_modify]
      exact h _ rfl rfl
  | removeManualMany ps =>
    simp only [Edit.outcome, removeManualMany, ensureManualAdopted, change, Program.ends_map,
      Program.ends_bind, Program.ends_modify, Program.ends_get]
    simp only [Edit.step] at h
    cases hrows : manualRowsWithout (adopt s.file s.tables).manualPrefixes ps with
    | none => exact hraises _ _
    | some rows =>
      rw [hrows] at h
      simp only [Program.ends_bind, Program.ends_modify]
      exact h _ rfl rfl
  | excludePrefix p =>
    simp only [Edit.outcome, excludePrefix, ensureManualAdopted, change, Program.ends_map,
      Program.ends_bind, Program.ends_modify]
    exact h _ rfl rfl
  | unexcludePrefix p =>
    simp only [Edit.outcome, unexcludePrefix, change, Program.ends_map, Program.ends_bind,
      Program.ends_modify]
    exact h _ rfl rfl
  | migrateManualIntoFeeds =>
    simp only [Edit.outcome, migrateManualIntoFeeds, ensureManualAdopted, change, Program.ends_map,
      Program.ends_bind, Program.ends_modify, Program.ends_get]
    simp only [Edit.step] at h
    cases hrows : redundantRows (coveredNetworks (adopt s.file s.tables))
        (adopt s.file s.tables).manualPrefixes with
    | none => exact hraises _ _
    | some redundant =>
      rw [hrows] at h
      simp only [Program.ends_bind, Program.ends_modify]
      exact h _ rfl rfl

/-- Outside its addresses an edit that has succeeded leaves what the stored state before it merges to; if
it applies nothing, it leaves the file. -/
def FramedBy (e : Edit) (s : SplitState) : Option ApplyOutcome → SplitState → Prop
  | none, s' => s'.file = s.file
  | some _, s' => ∀ a, a ∉ e.addresses → (a ∈ routed s'.file ↔ a ∈ StoredSet (e.before s))

/-- Outside its addresses an edit leaves what the list file routes. -/
def FileFramed (e : Edit) (s s' : SplitState) : Prop :=
  ∀ a, a ∉ e.addresses → (a ∈ routed s'.file ↔ a ∈ routed s.file)

theorem ends_outcome_framed {service : FeedService} {host : Host} {s : SplitState} (e : Edit)
    (hvalid : ValidSources s.tables) (hwrites : WritesList host) :
    Program.Ends (e.outcome service host) (fun outcome s' => FramedBy e s outcome s')
      (fun _ _ => True) s := by
  refine ends_outcome_of (fun _ _ => trivial) ?_
  have hsame := SameFeeds.of_step service.manager host s e
  cases hstep : e.step service.manager host s with
  | raises tables => trivial
  | returns tables => exact fun s₁ _ hfile => hfile
  | applies tables =>
    rw [hstep] at hsame
    rintro s₁ rfl -
    refine (ends_applyComputed_routed hwrites (hvalid.congr hsame)).mono ?_ fun _ _ _ => trivial
    intro _ s' hrouted a ha
    rw [hrouted]
    exact storedSet_of_step service.manager host s e hvalid hstep ha

/-- **The frame of an edit is that of the stored state.**  So the addresses outside an edit that applies
stay routed or unrouted exactly if the file agrees there with what the stored state merges to. -/
theorem edit_frame {service : FeedService} {host : Host} {e : Edit} {s s' : SplitState}
    {outcome : Option ApplyOutcome} (hvalid : ValidSources s.tables) (hwrites : WritesList host)
    (hrun : Program.result (e.outcome service host) s = (some outcome, s')) :
    FramedBy e s outcome s' ∧ (outcome.isSome → (FileFramed e s s' ↔
      ∀ a, a ∉ e.addresses → (a ∈ routed s.file ↔ a ∈ StoredSet (e.before s)))) := by
  have hframed : FramedBy e s outcome s' := by
    have hends : Program.Ends (e.outcome service host)
        (fun o t => ∀ o', some o = some o' → FramedBy e s o' t)
        (fun _ t => ∀ o', none = some o' → FramedBy e s o' t) s :=
      (ends_outcome_framed e hvalid hwrites).mono
        (fun o t ht o' ho => Option.some.inj ho ▸ ht) fun _ _ _ => nofun
    have hresult := hends.result (R := fun o t => ∀ o', o = some o' → FramedBy e s o' t)
    rw [hrun] at hresult
    exact hresult outcome rfl
  refine ⟨hframed, fun happlied => ?_⟩
  obtain ⟨applied, rfl⟩ := Option.isSome_iff_exists.1 happlied
  constructor
  · intro hfile a ha
    rw [← hfile a ha]
    exact hframed a ha
  · intro hagree a ha
    rw [hframed a ha, hagree a ha]

theorem writesList_obedientHost : WritesList obedientHost := by
  intro networks file detail file' _ hrun
  cases hrun
  rfl

theorem addr9_lt : 9 * 2 ^ 24 + 9 * 2 ^ 16 + 9 * 2 ^ 8 < 2 ^ 32 := by decide

/-- The network of prefix length 24 at `9.9.9.0`. -/
def net9 : IPv4Network :=
  Network.around (9 * 2 ^ 24 + 9 * 2 ^ 16 + 9 * 2 ^ 8) 24 addr9_lt prefixlen24_le

/-- An edit of a network that no feed has. -/
def addNine : Edit := .addManual [IPv4.text net9]

theorem validSources_unfetched : ValidSources unfetched.tables := by
  refine ⟨List.nodup_singleton _, fun source hsource => ?_⟩
  cases List.mem_singleton.1 hsource
  decide

/-- The state of a service that has the two networks of its feed in the list. -/
def appliedState : SplitState :=
  { unfetched.split with
    tables := (unfetched.tables.replacePrefixes telegram
      [IPv4.text net91, IPv4.text net149]).setMeta ADOPTED_META_KEY ['1']
    file := some (renderList [IPv4.text net91, IPv4.text net149]) }

theorem edit_frame_addNine : ∃ outcome s',
    Program.result (addNine.outcome (autoFeeds 1) obedientHost) appliedState = (some outcome, s') ∧
      FramedBy addNine appliedState outcome s' := by
  have hvalid : ValidSources appliedState.tables := ⟨validSources_unfetched.nodup,
    validSources_unfetched.reserved⟩
  have hsome : (Program.result (addNine.outcome (autoFeeds 1) obedientHost) appliedState).1.isSome := by
    decide +kernel
  obtain ⟨outcome, houtcome⟩ := Option.isSome_iff_exists.1 hsome
  have hrun : Program.result (addNine.outcome (autoFeeds 1) obedientHost) appliedState =
      (some outcome, (Program.result (addNine.outcome (autoFeeds 1) obedientHost) appliedState).2) := by
    rw [← houtcome]
  exact ⟨outcome, _, hrun, (edit_frame hvalid writesList_obedientHost hrun).1⟩

/-- The feed has published both of its networks and they are applied; then it published one, and the
change is held. -/
def heldShrink : List ServiceAction :=
  [.run (publishedRun [net91, net149]), .run (publishedRun [net91])]

/-- **An edit of one network applies the held change of another.** -/
theorem not_edit_frame :
    ¬ ∀ (service : FeedService) (actions : List ServiceAction) (x : FeedSystem) (host : Host) (e : Edit)
      (outcome : Option ApplyOutcome) (s' : SplitState), service.mode = .auto →
        runFrom (serviceStep service) (atStart unfetched) actions = some x →
          Program.result (e.outcome service host) x.service.split = (some outcome, s') →
            FileFramed e x.service.split s' := by
  intro h
  have hbefore : (runFrom (serviceStep (autoFeeds 1)) (atStart unfetched) heldShrink).map
      (fun x => readList x.service.split.file) = some [IPv4.text net91, IPv4.text net149] := by
    decide +kernel
  have hafter : (runFrom (serviceStep (autoFeeds 1)) (atStart unfetched) heldShrink).map
      (fun x => readList (Program.result (addNine.outcome (autoFeeds 1) obedientHost)
        x.service.split).2.file) = some [IPv4.text net9, IPv4.text net91] := by
    decide +kernel
  have hsome : (runFrom (serviceStep (autoFeeds 1)) (atStart unfetched) heldShrink).all
      (fun x => (Program.result (addNine.outcome (autoFeeds 1) obedientHost)
        x.service.split).1.isSome) := by
    decide +kernel
  obtain ⟨x, hrun, hfile⟩ := Option.map_eq_some_iff.1 hbefore
  rw [hrun] at hafter hsome
  obtain ⟨outcome, houtcome⟩ := Option.isSome_iff_exists.1 hsome
  have hframed := h (autoFeeds 1) heldShrink x obedientHost addNine outcome _ rfl hrun
    (by rw [← houtcome]) net149.addr
  have hrouted : net149.addr ∈ routed x.service.split.file := by
    rw [routed, hfile]
    exact ⟨IPv4.text net149, by simp, net149, IPv4.parse_text false net149, net149.addr_mem⟩
  have hother : ∀ networks ⊆ [net9, net91], net149.addr ∉ cover networks := by
    rintro networks hsub ⟨n, hn, ha⟩
    rw [mem_addresses] at ha
    have hmem := hsub hn
    simp only [List.mem_cons, List.not_mem_nil, or_false] at hmem
    rcases hmem with rfl | rfl
    · exact absurd ha (by decide)
    · exact absurd ha (by decide)
  have hnine : net149.addr ∉ addNine.addresses := by
    have haddresses : addNine.addresses = cover [net9] := by
      rw [← IPv4.textCover_map_text]
      exact congrArg IPv4.textCover (congrArg (· :: []) (strip_eq_self fun c => isSpace_of_mem_text))
    rw [haddresses]
    exact hother _ (by simp)
  have hnot : net149.addr ∉ routed (Program.result (addNine.outcome (autoFeeds 1) obedientHost)
      x.service.split).2.file := by
    have hlist : readList (Program.result (addNine.outcome (autoFeeds 1) obedientHost)
        x.service.split).2.file = [net9, net91].map IPv4.text := Option.some.inj hafter
    rw [routed, hlist, IPv4.textCover_map_text]
    exact hother _ (List.Subset.refl _)
  exact hnot ((hframed hnine).2 hrouted)

end VpnBot.Warp
