import VpnBot.Warp.Refresh

/-!
# A failing feed does not shorten the list

`outcome` is what becomes of one source, as a function of its row, its cached body and the answer that it
gets; `refreshOne_eq` says what `_refresh_one` makes of each outcome.  A failure changes the row of its
source and its cached body only (`FeedStore.failedIn`), which no plan reads.

So a refresh goes like the one that does not fetch the failing sources: `refreshRows_simulates` keeps two
states that agree on everything else.  The exception is a document that raises the `RecursionError` of
the JSON decoder, which no handler catches and which ends the whole refresh: `refresh_eq_error`.
-/

namespace VpnBot.Warp

open Py Sys FeedTables

/-! ### The outcome of one source -/

/-- What becomes of a source in a refresh. -/
inductive Outcome
  | failed (fault : FeedFault)
  | crashed
  | published (payload : FeedPayload) (prefixes : List Text)

/-- The outcome by the row, the cached body and the answer. -/
def outcome (env : FeedEnv) (row : SourceRow) (cache : Option Text) : Outcome :=
  match fetched row cache (env.answer row.source.slug) with
  | .error fault => .failed fault
  | .ok payload =>
    match parseFeed env.limit row.columns.kind payload.text with
    | .error (.fault fault) => .failed fault
    | .error .recursion => .crashed
    | .ok prefixes => .published payload prefixes

/-- The document of the source, fresh or from the cache, is nested deeper than the JSON decoder goes. -/
def TooDeep (env : FeedEnv) (row : SourceRow) (cache : Option Text) : Prop :=
  row.columns.kind = "google_json".toList ∧ ∃ payload,
    fetched row cache (env.answer row.source.slug) = .ok payload ∧
      Json.loads env.limit payload.text = .error .recursion

theorem finishParse_ne_recursion (networks : List IPv4Network) :
    finishParse networks ≠ .error .recursion := by
  unfold finishParse
  split_ifs <;> exact nofun

theorem parseGoogleJson_eq_recursion_iff {limit : ℕ} {payload : Text} :
    parseGoogleJson limit payload = .error .recursion ↔
      Json.loads limit payload = .error .recursion := by
  unfold parseGoogleJson
  cases hloads : Json.loads limit payload with
  | error e => cases e <;> simp
  | ok document =>
    refine iff_of_false ?_ nofun
    dsimp only
    split_ifs
    · exact nofun
    · split
      · exact nofun
      · exact finishParse_ne_recursion _

theorem parseFeed_eq_recursion_iff {limit : ℕ} {kind payload : Text} :
    parseFeed limit kind payload = .error .recursion ↔
      kind = "google_json".toList ∧ Json.loads limit payload = .error .recursion := by
  unfold parseFeed
  split_ifs with htext hjson
  · refine iff_of_false ?_ fun h => ?_
    · split <;> exact nofun
    · exact absurd (htext.symm.trans h.1) (by decide)
  · rw [parseGoogleJson_eq_recursion_iff]
    exact (and_iff_right hjson).symm
  · exact iff_of_false nofun fun h => hjson h.1

theorem outcome_eq_crashed_iff {env : FeedEnv} {row : SourceRow} {cache : Option Text} :
    outcome env row cache = .crashed ↔ TooDeep env row cache := by
  unfold outcome TooDeep
  cases hfetched : fetched row cache (env.answer row.source.slug) with
  | error fault =>
    exact iff_of_false nofun fun ⟨_, _, hpayload, _⟩ => nomatch hpayload
  | ok payload =>
    dsimp only
    constructor
    · intro h
      split at h
      · cases h
      · rename_i hparse
        obtain ⟨hkind, hdeep⟩ := parseFeed_eq_recursion_iff.1 hparse
        exact ⟨hkind, payload, rfl, hdeep⟩
      · cases h
    · rintro ⟨hkind, payload', hpayload, hdeep⟩
      cases hpayload
      rw [parseFeed_eq_recursion_iff.2 ⟨hkind, hdeep⟩]

namespace FeedStore

variable {env : FeedEnv} {row : SourceRow} {rows : List SourceRow} {s s' t s₀ : FeedStore}

/-- The store after the fetch of a source. -/
def fetchedIn (env : FeedEnv) (row : SourceRow) (s : FeedStore) : FeedStore :=
  let slug := row.source.slug
  let s := s.recordAttempt slug (env.attempted slug)
  match fetched row (s.cache slug) (env.answer slug) with
  | .error _ => s
  | .ok payload =>
    if payload.status = .ok then s.writeCache slug payload.text (env.replaced slug) else s

/-- The store after a source has failed. -/
def failedIn (env : FeedEnv) (row : SourceRow) (fault : FeedFault) (s : FeedStore) : FeedStore :=
  (fetchedIn env row s).recordFailure row.source.slug (faultStatus fault) fault
    (env.stamped row.source.slug)

/-- The store after a source has published its prefixes. -/
def publishedIn (env : FeedEnv) (row : SourceRow) (payload : FeedPayload) (prefixes : List Text)
    (s : FeedStore) : FeedStore :=
  (fetchedIn env row s).recordSuccess row.source.slug payload prefixes (env.stamped row.source.slug)

/-- **What `_refresh_one` does**, by the outcome. -/
theorem refreshOne_eq (env : FeedEnv) (row : SourceRow) (s : FeedStore) :
    refreshOne env row s =
      match outcome env row (s.cache row.source.slug) with
      | .failed fault =>
        .ok ⟨row.source.slug, faultStatus fault, 0, some fault⟩ (s.failedIn env row fault)
      | .crashed => .error .recursion (s.fetchedIn env row)
      | .published payload prefixes =>
        .ok ⟨row.source.slug, if payload.status = .ok then .ok else .notModified, prefixes.length, none⟩
          (s.publishedIn env row payload prefixes) := by
  have hcache : (s.recordAttempt row.source.slug (env.attempted row.source.slug)).cache = s.cache := rfl
  unfold outcome failedIn publishedIn fetchedIn
  simp only [hcache]
  simp only [refreshOne, fetch, bind, EStateM.bind, modify, modifyGet, MonadStateOf.modifyGet,
    EStateM.modifyGet, get, getThe, MonadStateOf.get, EStateM.get, hcache]
  cases hfetched : fetched row (s.cache row.source.slug) (env.answer row.source.slug) with
  | error fault => rfl
  | ok payload =>
    simp only [EStateM.bind, EStateM.modifyGet, EStateM.pure, pure]
    cases hparse : parseFeed env.limit row.columns.kind payload.text with
    | error e => cases e <;> rfl
    | ok prefixes => rfl

/-! ### What one source changes -/

@[simp] theorem tables_fetchedIn : (s.fetchedIn env row).tables = s.tables := by
  unfold fetchedIn writeCache
  dsimp only
  split
  · rfl
  · split_ifs <;> rfl

@[simp] theorem file_fetchedIn : (s.fetchedIn env row).file = s.file := by
  unfold fetchedIn writeCache
  dsimp only
  split
  · rfl
  · split_ifs <;> rfl

theorem columns_setColumns (slug other : Text) (f : FeedColumns → FeedColumns) :
    (s.setColumns slug f).columns other = if other = slug then f (s.columns other) else s.columns other :=
  rfl

theorem columns_fetchedIn (other : Text) : (s.fetchedIn env row).columns other =
    (s.recordAttempt row.source.slug (env.attempted row.source.slug)).columns other := by
  unfold fetchedIn writeCache
  dsimp only
  split
  · rfl
  · split_ifs <;> rfl

theorem cache_fetchedIn (h : s.cache row.source.slug = t.cache row.source.slug) :
    (s.fetchedIn env row).cache row.source.slug = (t.fetchedIn env row).cache row.source.slug := by
  have hs : (s.recordAttempt row.source.slug (env.attempted row.source.slug)).cache = s.cache := rfl
  have ht : (t.recordAttempt row.source.slug (env.attempted row.source.slug)).cache = t.cache := rfl
  unfold fetchedIn writeCache
  dsimp only
  rw [hs, ht, h]
  split
  · exact h
  · split_ifs
    · simp
    · exact h
    · exact h

theorem cache_fetchedIn_of_ne {other : Text} (h : other ≠ row.source.slug) :
    (s.fetchedIn env row).cache other = s.cache other := by
  unfold fetchedIn writeCache
  dsimp only
  split
  · rfl
  · split_ifs
    · exact if_neg h
    · rfl
    · rfl

/-- The columns of a source after a failure. -/
def failedColumns (env : FeedEnv) (slug : Text) (fault : FeedFault) (c : FeedColumns) : FeedColumns :=
  { c with
    lastAttemptTs := env.stamped slug
    lastStatus := some (faultStatus fault)
    lastError := some fault
    failStreak := c.failStreak + 1 }

theorem columns_failedIn_self (fault : FeedFault) :
    (s.failedIn env row fault).columns row.source.slug =
      failedColumns env row.source.slug fault (s.columns row.source.slug) := by
  unfold failedIn recordFailure
  rw [columns_setColumns, if_pos rfl, columns_fetchedIn, recordAttempt, columns_setColumns, if_pos rfl]
  rfl

/-- Nothing of the other sources is changed by a refresh of one. -/
structure LeavesOther (slug : Text) (s s' : FeedStore) : Prop where
  file : s'.file = s.file
  baselines : s'.tables.baselines = s.tables.baselines
  columns : ∀ other, other ≠ slug → s'.columns other = s.columns other
  cache : ∀ other, other ≠ slug → s'.cache other = s.cache other
  prefixes : ∀ other, other ≠ slug → s'.tables.prefixesFor other = s.tables.prefixesFor other

theorem leavesOther_failedIn (fault : FeedFault) :
    LeavesOther row.source.slug s (s.failedIn env row fault) := by
  refine ⟨file_fetchedIn, by rw [failedIn]; exact congrArg _ tables_fetchedIn, fun other h => ?_,
    fun other h => cache_fetchedIn_of_ne h, fun other _ => ?_⟩
  · unfold failedIn recordFailure
    rw [columns_setColumns, if_neg h, columns_fetchedIn, recordAttempt, columns_setColumns, if_neg h]
  · exact congrArg (fun tables => prefixesFor tables other) tables_fetchedIn

theorem leavesOther_publishedIn (payload : FeedPayload) (prefixes : List Text) :
    LeavesOther row.source.slug s (s.publishedIn env row payload prefixes) := by
  refine ⟨file_fetchedIn, ?_, fun other h => ?_, fun other h => cache_fetchedIn_of_ne h,
    fun other h => ?_⟩
  · change (s.fetchedIn env row).tables.baselines = s.tables.baselines
    rw [tables_fetchedIn]
  · unfold publishedIn recordSuccess
    dsimp only
    rw [columns_setColumns, if_neg h, columns_fetchedIn, recordAttempt, columns_setColumns, if_neg h]
  · change prefixesFor ((s.fetchedIn env row).tables.replacePrefixes row.source.slug prefixes) other = _
    rw [prefixesFor_replacePrefixes_of_ne h, tables_fetchedIn]

/-! ### Two stores that agree outside the failing sources -/

/-- The two stores differ in the columns and the cached bodies of the failing sources at most. -/
structure Agree (failing : List Text) (s t : FeedStore) : Prop where
  tables : s.tables = t.tables
  file : s.file = t.file
  columns : ∀ slug, slug ∉ failing → s.columns slug = t.columns slug
  cache : ∀ slug, slug ∉ failing → s.cache slug = t.cache slug

variable {failing : List Text}

/-- A failure keeps the agreement. -/
theorem Agree.failedIn (h : Agree failing s t) (fault : FeedFault) (hrow : row.source.slug ∈ failing) :
    Agree failing (s.failedIn env row fault) t := by
  have hleaves : LeavesOther row.source.slug s (s.failedIn env row fault) := leavesOther_failedIn fault
  have hne : ∀ slug, slug ∉ failing → slug ≠ row.source.slug := by
    rintro slug hslug rfl
    exact hslug hrow
  refine ⟨Eq.trans tables_fetchedIn h.tables, hleaves.file.trans h.file, fun slug hslug => ?_,
    fun slug hslug => ?_⟩
  · rw [hleaves.columns slug (hne slug hslug), h.columns slug hslug]
  · rw [hleaves.cache slug (hne slug hslug), h.cache slug hslug]

/-- A success on both sides keeps it. -/
theorem Agree.publishedIn (h : Agree failing s t) (payload : FeedPayload) (prefixes : List Text)
    (hrow : row.source.slug ∉ failing) :
    Agree failing (s.publishedIn env row payload prefixes) (t.publishedIn env row payload prefixes) := by
  have hs : LeavesOther row.source.slug s (s.publishedIn env row payload prefixes) :=
    leavesOther_publishedIn payload prefixes
  have ht : LeavesOther row.source.slug t (t.publishedIn env row payload prefixes) :=
    leavesOther_publishedIn payload prefixes
  refine ⟨?_, ?_, fun slug hslug => ?_, fun slug hslug => ?_⟩
  · unfold FeedStore.publishedIn recordSuccess setColumns
    simp only [tables_fetchedIn, h.tables]
  · rw [hs.file, ht.file, h.file]
  · by_cases he : slug = row.source.slug
    · subst he
      unfold FeedStore.publishedIn recordSuccess
      dsimp only
      rw [columns_setColumns, columns_setColumns, columns_fetchedIn, columns_fetchedIn, recordAttempt,
        recordAttempt, columns_setColumns, columns_setColumns, h.columns _ hrow]
    · rw [hs.columns slug he, ht.columns slug he, h.columns slug hslug]
  · by_cases he : slug = row.source.slug
    · subst he
      exact cache_fetchedIn (h.cache _ hrow)
    · rw [hs.cache slug he, ht.cache slug he, h.cache slug hslug]

/-! ### A whole refresh -/

/-- The source publishes its prefixes. -/
def publishes (env : FeedEnv) (row : SourceRow) (cache : Option Text) : Bool :=
  match outcome env row cache with
  | .published .. => true
  | _ => false

theorem publishes_of_failed {cache : Option Text} {fault : FeedFault}
    (h : outcome env row cache = .failed fault) : publishes env row cache = false := by
  unfold publishes
  rw [h]

theorem publishes_of_published {cache : Option Text} {payload : FeedPayload} {prefixes : List Text}
    (h : outcome env row cache = .published payload prefixes) : publishes env row cache = true := by
  unfold publishes
  rw [h]

theorem refreshRows_cons (row : SourceRow) (rows : List SourceRow) :
    refreshRows env (row :: rows) s =
      match refreshOne env row s with
      | .error e s' => .error e s'
      | .ok first s' =>
        match refreshRows env rows s' with
        | .error e s'' => .error e s''
        | .ok rest s'' => .ok (first :: rest) s'' := by
  simp only [refreshRows, bind, EStateM.bind]
  cases refreshOne env row s with
  | error e s' => rfl
  | ok first s' =>
    dsimp only
    cases refreshRows env rows s' <;> rfl

theorem refreshRows_of_failed {fault : FeedFault} {refreshed : List RefreshedSource}
    (h : outcome env row (s.cache row.source.slug) = .failed fault)
    (hrest : refreshRows env rows (s.failedIn env row fault) = .ok refreshed s') :
    ∃ first, refreshRows env (row :: rows) s = .ok (first :: refreshed) s' := by
  rw [refreshRows_cons, refreshOne_eq, h]
  dsimp only
  rw [hrest]
  exact ⟨_, rfl⟩

theorem refreshRows_of_published {payload : FeedPayload} {prefixes : List Text}
    {refreshed : List RefreshedSource}
    (h : outcome env row (s.cache row.source.slug) = .published payload prefixes)
    (hrest : refreshRows env rows (s.publishedIn env row payload prefixes) = .ok refreshed s') :
    ∃ first, refreshRows env (row :: rows) s = .ok (first :: refreshed) s' := by
  rw [refreshRows_cons, refreshOne_eq, h]
  dsimp only
  rw [hrest]
  exact ⟨_, rfl⟩

theorem refreshRows_leaves {refreshed : List RefreshedSource}
    (h : refreshRows env rows s = .ok refreshed s') :
    s'.tables.baselines = s.tables.baselines ∧
      ∀ slug, slug ∉ rows.map (fun row => row.source.slug) → s'.columns slug = s.columns slug ∧
        s'.cache slug = s.cache slug ∧ s'.tables.prefixesFor slug = s.tables.prefixesFor slug := by
  induction rows generalizing s refreshed with
  | nil =>
    cases h
    exact ⟨rfl, fun _ _ => ⟨rfl, rfl, rfl⟩⟩
  | cons row rows ih =>
    rw [refreshRows_cons] at h
    have hone : ∀ first s₁, refreshOne env row s = .ok first s₁ → LeavesOther row.source.slug s s₁ := by
      intro first s₁ hfirst
      rw [refreshOne_eq] at hfirst
      split at hfirst
      · cases hfirst
        exact leavesOther_failedIn _
      · cases hfirst
      · cases hfirst
        exact leavesOther_publishedIn _ _
    cases hfirst : refreshOne env row s with
    | error e s₁ =>
      rw [hfirst] at h
      cases h
    | ok first s₁ =>
      rw [hfirst] at h
      dsimp only at h
      cases hrest : refreshRows env rows s₁ with
      | error e s₂ =>
        rw [hrest] at h
        cases h
      | ok rest s₂ =>
        rw [hrest] at h
        cases h
        have hleaves := hone first s₁ hfirst
        obtain ⟨hbaselines, hothers⟩ := ih hrest
        refine ⟨hbaselines.trans hleaves.baselines, fun slug hslug => ?_⟩
        rw [List.map_cons, List.mem_cons, not_or] at hslug
        obtain ⟨hcolumns, hcache, hprefixes⟩ := hothers slug hslug.2
        exact ⟨hcolumns.trans (hleaves.columns slug hslug.1), hcache.trans (hleaves.cache slug hslug.1),
          hprefixes.trans (hleaves.prefixes slug hslug.1)⟩

/-- The slugs of the rows are distinct, and their cached bodies are those of `s`. -/
structure Fresh (rows : List SourceRow) (s s' : FeedStore) : Prop where
  nodup : (rows.map fun row => row.source.slug).Nodup
  cache : ∀ row ∈ rows, s'.cache row.source.slug = s.cache row.source.slug

theorem Fresh.tail (h : Fresh (row :: rows) s₀ s) (hleaves : LeavesOther row.source.slug s s') :
    Fresh rows s₀ s' := by
  have hnodup := h.nodup
  rw [List.map_cons, List.nodup_cons] at hnodup
  refine ⟨hnodup.2, fun other hother => ?_⟩
  have hne : other.source.slug ≠ row.source.slug := by
    intro he
    exact hnodup.1 (he ▸ List.mem_map_of_mem hother)
  rw [hleaves.cache _ hne]
  exact h.cache other (List.mem_cons_of_mem _ hother)

/-- **A refresh goes like the one without the failing sources**, and marks the rows of these. -/
theorem refreshRows_simulates (h : Agree failing s t) (hfresh : Fresh rows s₀ s)
    (hfailing : ∀ row ∈ rows, row.source.slug ∈ failing ↔
      publishes env row (s₀.cache row.source.slug) = false)
    (hcrash : ∀ row ∈ rows, outcome env row (s₀.cache row.source.slug) ≠ .crashed) :
    ∃ refreshed s' refreshed' t', refreshRows env rows s = .ok refreshed s' ∧
      refreshRows env (rows.filter fun row => publishes env row (s₀.cache row.source.slug)) t =
        .ok refreshed' t' ∧ Agree failing s' t' ∧
      ∀ row ∈ rows, ∀ fault, outcome env row (s₀.cache row.source.slug) = .failed fault →
        s'.columns row.source.slug = failedColumns env row.source.slug fault (s.columns row.source.slug) := by
  induction rows generalizing s t with
  | nil => exact ⟨[], s, [], t, rfl, rfl, h, fun _ hmem => absurd hmem List.not_mem_nil⟩
  | cons row rows ih =>
    have hcache := hfresh.cache row List.mem_cons_self
    have hnotin : row.source.slug ∉ rows.map fun row => row.source.slug := by
      have hnodup := hfresh.nodup
      rw [List.map_cons, List.nodup_cons] at hnodup
      exact hnodup.1
    have hfailing' : ∀ other ∈ rows, other.source.slug ∈ failing ↔
        publishes env other (s₀.cache other.source.slug) = false := fun other hother =>
      hfailing other (List.mem_cons_of_mem _ hother)
    have hcrash' : ∀ other ∈ rows, outcome env other (s₀.cache other.source.slug) ≠ .crashed :=
      fun other hother => hcrash other (List.mem_cons_of_mem _ hother)
    -- the rows that come later are marked as they are without the first one
    have hmarks : ∀ {s₁ s' : FeedStore}, LeavesOther row.source.slug s s₁ →
        (∀ other ∈ rows, ∀ fault, outcome env other (s₀.cache other.source.slug) = .failed fault →
          s'.columns other.source.slug =
            failedColumns env other.source.slug fault (s₁.columns other.source.slug)) →
        ∀ other ∈ rows, ∀ fault, outcome env other (s₀.cache other.source.slug) = .failed fault →
          s'.columns other.source.slug =
            failedColumns env other.source.slug fault (s.columns other.source.slug) := by
      intro s₁ s' hleaves hmarked other hother fault hfault
      have hne : other.source.slug ≠ row.source.slug := by
        intro he
        exact hnotin (he ▸ List.mem_map_of_mem hother)
      rw [hmarked other hother fault hfault, hleaves.columns _ hne]
    cases hout : outcome env row (s₀.cache row.source.slug) with
    | crashed => exact absurd hout (hcrash row List.mem_cons_self)
    | failed fault =>
      have hno := publishes_of_failed hout
      have hrow : row.source.slug ∈ failing := (hfailing row List.mem_cons_self).2 hno
      have hleaves : LeavesOther row.source.slug s (s.failedIn env row fault) := leavesOther_failedIn fault
      obtain ⟨refreshed, s', refreshed', t', hs, ht, hagree, hmarked⟩ :=
        ih (h.failedIn fault hrow) (hfresh.tail hleaves) hfailing' hcrash'
      obtain ⟨first, hfirst⟩ := refreshRows_of_failed (hcache.symm ▸ hout) hs
      refine ⟨first :: refreshed, s', refreshed', t', hfirst, ?_, hagree, ?_⟩
      · rw [List.filter_cons_of_neg (by rw [hno]; decide)]
        exact ht
      · intro other hother fault' hfault'
        rcases List.mem_cons.1 hother with rfl | hother
        · rw [hout] at hfault'
          cases hfault'
          rw [((refreshRows_leaves hs).2 _ hnotin).1, columns_failedIn_self]
        · exact hmarks hleaves hmarked other hother fault' hfault'
    | published payload prefixes =>
      have hyes := publishes_of_published hout
      have hrow : row.source.slug ∉ failing := by
        rw [hfailing row List.mem_cons_self, hyes]
        decide
      have hleaves : LeavesOther row.source.slug s (s.publishedIn env row payload prefixes) :=
        leavesOther_publishedIn payload prefixes
      obtain ⟨refreshed, s', refreshed', t', hs, ht, hagree, hmarked⟩ :=
        ih (h.publishedIn payload prefixes hrow) (hfresh.tail hleaves) hfailing' hcrash'
      obtain ⟨first, hfirst⟩ := refreshRows_of_published (hcache.symm ▸ hout) hs
      have hcachet : t.cache row.source.slug = s₀.cache row.source.slug := (h.cache _ hrow).symm.trans hcache
      obtain ⟨first', hfirst'⟩ := refreshRows_of_published (hcachet.symm ▸ hout) ht
      refine ⟨first :: refreshed, s', first' :: refreshed', t', hfirst, ?_, hagree, ?_⟩
      · rw [List.filter_cons_of_pos (by exact hyes)]
        exact hfirst'
      · intro other hother fault' hfault'
        rcases List.mem_cons.1 hother with rfl | hother
        · rw [hout] at hfault'
          cases hfault'
        · exact hmarks hleaves hmarked other hother fault' hfault'

/-- **A document that is too deep ends the refresh**, with the exception of the decoder. -/
theorem refreshRows_eq_error (hfresh : Fresh rows s₀ s)
    (hcrash : ∃ row ∈ rows, outcome env row (s₀.cache row.source.slug) = .crashed) :
    ∃ s', refreshRows env rows s = .error .recursion s' := by
  induction rows generalizing s with
  | nil =>
    obtain ⟨row, hrow, -⟩ := hcrash
    cases hrow
  | cons row rows ih =>
    rw [refreshRows_cons, refreshOne_eq, hfresh.cache row List.mem_cons_self]
    have hlater : outcome env row (s₀.cache row.source.slug) ≠ .crashed →
        ∃ other ∈ rows, outcome env other (s₀.cache other.source.slug) = .crashed := by
      intro hne
      obtain ⟨other, hother, hout⟩ := hcrash
      rcases List.mem_cons.1 hother with rfl | hother
      · exact absurd hout hne
      · exact ⟨other, hother, hout⟩
    cases hout : outcome env row (s₀.cache row.source.slug) with
    | crashed => exact ⟨_, rfl⟩
    | failed fault =>
      have hleaves : LeavesOther row.source.slug s (s.failedIn env row fault) := leavesOther_failedIn fault
      obtain ⟨s', hs'⟩ := ih (hfresh.tail hleaves) (hlater (by rw [hout]; exact nofun))
      exact ⟨s', by simp only [hs']⟩
    | published payload prefixes =>
      have hleaves : LeavesOther row.source.slug s (s.publishedIn env row payload prefixes) :=
        leavesOther_publishedIn payload prefixes
      obtain ⟨s', hs'⟩ := ih (hfresh.tail hleaves) (hlater (by rw [hout]; exact nofun))
      exact ⟨s', by simp only [hs']⟩

/-! ### What a refresh promises -/

/-- The sources of a refresh that do not fail. -/
def sparedSlugs (env : FeedEnv) (slugs : Option (List Text)) (s : FeedStore) : List Text :=
  ((wanted slugs s).filter fun row => publishes env row (s.cache row.source.slug)).map fun row =>
    row.source.slug

/-- The sources of a refresh whose fetch or parse fails. -/
def failingSlugs (env : FeedEnv) (slugs : Option (List Text)) (s : FeedStore) : List Text :=
  ((wanted slugs s).filter fun row => !publishes env row (s.cache row.source.slug)).map fun row =>
    row.source.slug

/-- What the failures change from `s` to `s'`, next to the store `t'` after the refresh without the failing
sources: their rows are marked and their cached bodies may be new, and that is all. -/
structure OnlyMarks (env : FeedEnv) (failing : List Text) (s s' t' : FeedStore) : Prop where
  tables : s'.tables = t'.tables
  prefixes : ∀ slug ∈ failing, s'.tables.prefixesFor slug = s.adopted.tables.prefixesFor slug
  baselines : s'.tables.baselines = s.tables.baselines
  others : ∀ slug, slug ∉ failing → s'.columns slug = t'.columns slug ∧ s'.cache slug = t'.cache slug
  marked : ∀ slug ∈ failing, ∃ fault, s'.columns slug = failedColumns env slug fault (s.columns slug)

/-- The refresh returns, with the plan of the refresh that does not fetch the failing sources; and no plan
passes over a source without prefixes. -/
structure FailureHarmless (env : FeedEnv) (slugs : Option (List Text)) (s : FeedStore) : Prop where
  spared : ∃ refreshed refreshed' plan s' t', refresh env slugs s = .ok (refreshed, plan) s' ∧
    refresh env (some (sparedSlugs env slugs s)) s = .ok (refreshed', plan) t' ∧
      OnlyMarks env (failingSlugs env slugs s) s s' t'
  noCache : ∀ t : FeedStore, ∀ source ∈ t.tables.sources, source.takesPart = true →
    t.tables.prefixesFor source.slug = [] → ∃ missing ∈ t.tables.sources, missing.takesPart = true ∧
      t.tables.prefixesFor missing.slug = [] ∧ t.plan = .error (.noCache missing.slug)

theorem mapM_contribution_error (stored : Text → List Text) (sources : List SplitSource)
    (h : ∃ source ∈ sources, stored source.slug = []) :
    ∃ missing ∈ sources, stored missing.slug = [] ∧
      sources.mapM (contribution stored) = .error (.noCache missing.slug) := by
  induction sources with
  | nil =>
    obtain ⟨source, hsource, -⟩ := h
    cases hsource
  | cons first sources ih =>
    rw [List.mapM_cons]
    by_cases hfirst : stored first.slug = []
    · refine ⟨first, List.mem_cons_self, hfirst, ?_⟩
      rw [contribution, if_pos (by rw [hfirst]; rfl)]
      rfl
    · have hrest : ∃ source ∈ sources, stored source.slug = [] := by
        obtain ⟨source, hsource, hnone⟩ := h
        rcases List.mem_cons.1 hsource with rfl | hsource
        · exact absurd hnone hfirst
        · exact ⟨source, hsource, hnone⟩
      obtain ⟨missing, hmissing, hnone, herror⟩ := ih hrest
      refine ⟨missing, List.mem_cons_of_mem _ hmissing, hnone, ?_⟩
      rw [contribution, if_neg (by rw [List.isEmpty_iff]; exact hfirst), herror]
      rfl

theorem plan_noCache {source : SplitSource} (hsource : source ∈ t.tables.sources)
    (htakes : source.takesPart = true) (hnone : t.tables.prefixesFor source.slug = []) :
    ∃ missing ∈ t.tables.sources, missing.takesPart = true ∧
      t.tables.prefixesFor missing.slug = [] ∧ t.plan = .error (.noCache missing.slug) := by
  obtain ⟨missing, hmissing, hnone', herror⟩ := mapM_contribution_error t.tables.prefixesFor
    (t.tables.sources.filter SplitSource.takesPart) ⟨source, List.mem_filter.2 ⟨hsource, htakes⟩, hnone⟩
  obtain ⟨hmem, htakes'⟩ := List.mem_filter.1 hmissing
  refine ⟨missing, hmem, htakes', hnone', ?_⟩
  rw [plan, planOf, herror]
  rfl

/-! ### The refresh -/

theorem sources_adopted : s.adopted.tables.sources = s.tables.sources :=
  (SameFeeds.adopt s.file).sources

theorem listSources_adopted : s.adopted.listSources = s.listSources := by
  unfold listSources
  rw [sources_adopted]
  rfl

theorem wanted_adopted (slugs : Option (List Text)) : wanted slugs s.adopted = wanted slugs s := by
  unfold wanted
  rw [listSources_adopted]

theorem refresh_eq (slugs : Option (List Text)) :
    refresh env slugs s =
      match refreshRows env (wanted slugs s) s.adopted with
      | .error e s' => .error e s'
      | .ok refreshed s' => .ok (refreshed, s'.plan) s' := by
  rw [← wanted_adopted]
  simp only [refresh, refreshSources, bind, EStateM.bind, modify, modifyGet, MonadStateOf.modifyGet,
    EStateM.modifyGet, get, getThe, MonadStateOf.get, EStateM.get]
  cases refreshRows env (wanted slugs s.adopted) s.adopted <;> rfl

theorem slugs_listSources : s.listSources.map (fun row => row.source.slug) =
    s.tables.sources.map SplitSource.slug := by
  unfold listSources
  rw [List.map_map]
  rfl

theorem fresh_wanted (slugs : Option (List Text)) : Fresh (wanted slugs s) s s.adopted := by
  refine ⟨?_, fun _ _ => rfl⟩
  have hunique := s.unique
  rw [← slugs_listSources] at hunique
  exact hunique.sublist (List.filter_sublist.map _)

theorem eq_of_slug_eq {row' : SourceRow} (h : row ∈ s.listSources) (h' : row' ∈ s.listSources)
    (hslug : row.source.slug = row'.source.slug) : row = row' := by
  have hunique := s.unique
  rw [← slugs_listSources] at hunique
  exact List.inj_on_of_nodup_map hunique h h' hslug

theorem wanted_sparedSlugs (slugs : Option (List Text)) :
    wanted (some (sparedSlugs env slugs s)) s =
      (wanted slugs s).filter fun row => publishes env row (s.cache row.source.slug) := by
  unfold wanted
  rw [List.filter_filter]
  apply List.filter_congr
  intro row hrow
  have hmem : row.source.slug ∈ sparedSlugs env slugs s ↔
      row ∈ wanted slugs s ∧ publishes env row (s.cache row.source.slug) = true := by
    unfold sparedSlugs
    rw [List.mem_map]
    constructor
    · rintro ⟨row', hrow', hslug⟩
      have hrow'' := (List.mem_filter.1 (List.mem_filter.1 hrow').1).1
      rw [← eq_of_slug_eq hrow'' hrow hslug]
      exact List.mem_filter.1 hrow'
    · intro h
      exact ⟨row, List.mem_filter.2 h, rfl⟩
  rw [Bool.eq_iff_iff]
  simp only [Option.all_some, decide_eq_true_eq, Bool.and_eq_true, hmem, wanted, List.mem_filter]
  tauto

theorem mem_failingSlugs (slugs : Option (List Text)) {row : SourceRow} (hrow : row ∈ wanted slugs s) :
    row.source.slug ∈ failingSlugs env slugs s ↔ publishes env row (s.cache row.source.slug) = false := by
  unfold failingSlugs
  rw [List.mem_map]
  constructor
  · rintro ⟨row', hrow', hslug⟩
    obtain ⟨hmem, hno⟩ := List.mem_filter.1 hrow'
    have he := eq_of_slug_eq (List.mem_filter.1 hmem).1 (List.mem_filter.1 hrow).1 hslug
    rw [← he]
    simpa using hno
  · intro hno
    exact ⟨row, List.mem_filter.2 ⟨hrow, by rw [hno]; rfl⟩, rfl⟩

/-- **Without a document that is too deep, the failures of a refresh are harmless.** -/
theorem failureHarmless_of_shallow (slugs : Option (List Text))
    (h : ∀ row ∈ wanted slugs s, ¬ TooDeep env row (s.cache row.source.slug)) :
    FailureHarmless env slugs s := by
  have hagree : Agree (failingSlugs env slugs s) s.adopted s.adopted :=
    ⟨rfl, rfl, fun _ _ => rfl, fun _ _ => rfl⟩
  obtain ⟨refreshed, s', refreshed', t', hs, ht, hend, hmarked⟩ :=
    refreshRows_simulates hagree (fresh_wanted slugs) (fun row hrow => mem_failingSlugs slugs hrow)
      fun row hrow hcrash => h row hrow (outcome_eq_crashed_iff.1 hcrash)
  have hspared : refresh env (some (sparedSlugs env slugs s)) s = .ok (refreshed', t'.plan) t' := by
    rw [refresh_eq, wanted_sparedSlugs, ht]
  have hplan : s'.plan = t'.plan := by
    unfold plan
    rw [hend.tables, hend.file]
  have hleaves := refreshRows_leaves ht
  refine ⟨⟨refreshed, refreshed', t'.plan, s', t', by rw [refresh_eq, hs, ← hplan], hspared, ?_⟩, ?_⟩
  · refine ⟨hend.tables, fun slug hslug => ?_, ?_, fun slug hslug =>
      ⟨hend.columns slug hslug, hend.cache slug hslug⟩, fun slug hslug => ?_⟩
    · rw [hend.tables]
      refine (hleaves.2 slug fun hmem => ?_).2.2
      obtain ⟨row, hrow, rfl⟩ := List.mem_map.1 hmem
      obtain ⟨hwanted, hyes⟩ := List.mem_filter.1 hrow
      rw [mem_failingSlugs slugs hwanted, hyes] at hslug
      cases hslug
    · rw [hend.tables, hleaves.1]
      exact (SameFeeds.adopt s.file).baselines
    · obtain ⟨row, hrow, rfl⟩ := List.mem_map.1 hslug
      obtain ⟨hwanted, hno⟩ := List.mem_filter.1 hrow
      cases hout : outcome env row (s.cache row.source.slug) with
      | failed fault => exact ⟨fault, hmarked row hwanted fault hout⟩
      | crashed => exact absurd (outcome_eq_crashed_iff.1 hout) (h row hwanted)
      | published payload prefixes =>
        rw [publishes_of_published hout] at hno
        cases hno
  · exact fun t source hsource htakes hnone => plan_noCache hsource htakes hnone

/-- **A refresh that meets a document that is too deep does not return.** -/
theorem refresh_eq_error (slugs : Option (List Text))
    (h : ∃ row ∈ wanted slugs s, TooDeep env row (s.cache row.source.slug)) :
    ∃ s', refresh env slugs s = .error .recursion s' := by
  obtain ⟨row, hrow, hdeep⟩ := h
  obtain ⟨s', hs'⟩ := refreshRows_eq_error (fresh_wanted slugs)
    ⟨row, hrow, outcome_eq_crashed_iff.2 hdeep⟩
  exact ⟨s', by rw [refresh_eq, hs']⟩

/-- **A failing feed leaves the list alone, exactly when no document of the refresh is nested deeper than
the JSON decoder goes.** -/
theorem failing_feed_harmless_iff (env : FeedEnv) (slugs : Option (List Text)) (s : FeedStore) :
    FailureHarmless env slugs s ↔
      ∀ row ∈ wanted slugs s, ¬ TooDeep env row (s.cache row.source.slug) := by
  constructor
  · intro h row hrow hdeep
    obtain ⟨s', hs'⟩ := refresh_eq_error slugs ⟨row, hrow, hdeep⟩
    obtain ⟨⟨refreshed, refreshed', plan, s'', t', hs, -⟩, -⟩ := h
    rw [hs'] at hs
    cases hs
  · exact failureHarmless_of_shallow slugs

end FeedStore

/-! ### A feed that ends every refresh -/

/-- The columns of a feed that was never fetched. -/
def unfetchedColumns (kind : Text) : FeedColumns :=
  ⟨"https://example".toList, kind, .none, 0, none, 0, none, 0⟩

/-- A Google feed in front of the Telegram feed; nothing has been fetched. -/
def twoFeeds : FeedStore where
  tables :=
    { sources := [⟨"google-goog".toList, .add, none, true, true, 0⟩, ⟨telegram, .add, none, true, true, 0⟩]
      prefixes := []
      exclusionRows := []
      baselines := Dict.empty
      metaRows := Dict.empty }
  columns slug := unfetchedColumns (if slug = telegram then "cidr_text".toList else "google_json".toList)
  cache _ := none
  file := none
  unique := by decide

/-- The Google feed answers with opening brackets. -/
def bracketsAnswer (limit : ℕ) : FeedEnv where
  limit := limit
  answer slug :=
    if slug = telegram then .body "91.108.4.0/22\n".toList .none
    else .body (List.replicate (limit + 1) '[') .none
  replaced _ := true
  attempted _ := 1000
  stamped _ := 1000

def googleRow : SourceRow where
  source := ⟨"google-goog".toList, .add, none, true, true, 0⟩
  columns := unfetchedColumns "google_json".toList

theorem tooDeep_bracketsAnswer (limit : ℕ) : TooDeep (bracketsAnswer limit) googleRow none := by
  have hstrip : strip (List.replicate (limit + 1) '[') = List.replicate (limit + 1) '[' := by
    refine strip_eq_self fun c hc => ?_
    rw [List.eq_of_mem_replicate hc]
    rfl
  have hdeep : Json.loads limit (List.replicate (limit + 1) '[') = .error .recursion := by
    have h := Json.loads_brackets limit []
    rwa [List.append_nil] at h
  refine ⟨rfl, ⟨List.replicate (limit + 1) '[', .none, .ok⟩, ?_, hdeep⟩
  have hanswer : (bracketsAnswer limit).answer googleRow.source.slug =
      .body (List.replicate (limit + 1) '[') .none := rfl
  have hscheme : allowedScheme googleRow.columns.url = true := by decide
  have hname : badCacheName googleRow.source.slug = false := by decide
  unfold fetched
  simp only [hanswer, hscheme, hname, hstrip]
  rw [List.replicate_succ]
  rfl

/-- **One feed with enough opening brackets ends the whole refresh.** -/
theorem brackets_end_refresh :
    ¬ ∀ (env : FeedEnv) (slugs : Option (List Text)) (s : FeedStore),
      FeedStore.FailureHarmless env slugs s := by
  intro h
  have hwanted : googleRow ∈ FeedStore.wanted none twoFeeds := List.mem_cons_self
  obtain ⟨s', hs'⟩ := FeedStore.refresh_eq_error (s := twoFeeds) none
    ⟨googleRow, hwanted, tooDeep_bracketsAnswer 10000⟩
  obtain ⟨⟨refreshed, refreshed', plan, s'', t', hs, -⟩, -⟩ := h (bracketsAnswer 10000) none twoFeeds
  rw [hs'] at hs
  cases hs

end VpnBot.Warp
