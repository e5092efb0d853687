import VpnBot.Python.Ipv4

/-!
# Merging the WARP split list

`src/warp/split_merge.py`: the final split list is computed from the operator's manual networks,
the contributions of the sources and the exclusions.

* `collapse`, `subtractNetworks`, `mergeSplitList` follow the source; `none` is the `ValueError`
  that `address_exclude` raises for a network that is not inside the other one;
* `SplitSet` is what the list is for: a set of addresses given by set operations alone;
* `textCover_mergeSplitList` says that the merge never raises and that its list covers `SplitSet`.

The buckets are followed through `bucketCover`, the addresses stored under a slug; a scoped
subtraction changes the one bucket it names (`bucketCover_subtractScoped`).
-/

namespace VpnBot.Warp

open Py Py.Network

/-! ### The data -/

/-- `SourceContribution.mode`. -/
inductive Mode
  | add
  | subtract
  deriving DecidableEq

/-- One resolved source ready to take part in the merge. -/
structure SourceContribution where
  slug : Text
  mode : Mode
  networks : List IPv4Network
  scopeSlug : Option Text

/-- The slug under which the manual list is filed. -/
def MANUAL_ORIGIN : Text := "manual".toList

/-- The merged list and its numbers. -/
structure MergeReport where
  prefixes : List Text
  nBeforeSubtract : ℕ
  nAfterSubtract : ℕ
  addressesBefore : ℕ
  addressesAfter : ℕ
  perOrigin : Dict Text ℕ
  perOriginAddresses : Dict Text ℕ
  perSourcePrefixes : Dict Text ℕ
  perSourceAddresses : Dict Text ℕ

/-! ### The set arithmetic of the source -/

/-- Stable, human-readable order: by address, then by mask length. -/
def sortNetworks (networks : List IPv4Network) : List IPv4Network := sort networks

/-- Dedupe, absorb subnets into supernets, and merge adjacent siblings. -/
def collapse (networks : List IPv4Network) : List IPv4Network :=
  sortNetworks (collapseAddresses networks)

/-- What one network leaves when `hole` is taken out of it. -/
def punch (hole net : IPv4Network) : Option (List IPv4Network) :=
  if !net.overlaps hole then some [net]
  else if net.subnetOf hole then some []
  else net.addressExclude hole

/-- One round of `subtract_networks`: every network meets the hole. -/
def punchAll (hole : IPv4Network) : List IPv4Network → Option (List IPv4Network)
  | [] => some []
  | net :: nets => do
    let fragments ← punch hole net
    let remaining ← punchAll hole nets
    return fragments ++ remaining

/-- The loop of `subtract_networks` over the collapsed holes. -/
def subtractHoles : List IPv4Network → List IPv4Network → Option (List IPv4Network)
  | [], current => some current
  | hole :: holes, current =>
    if current.isEmpty then some current else (punchAll hole current).bind (subtractHoles holes)

/-- `base` minus `minus`, computed over addresses; the result is not collapsed. -/
def subtractNetworks (base minus : List IPv4Network) : Option (List IPv4Network) :=
  subtractHoles (collapse minus) base

/-- The total of `num_addresses`. -/
def addressCount (networks : List IPv4Network) : ℕ := (networks.map numAddresses).sum

/-! ### The merge -/

/-- The networks collected under each slug. -/
abbrev Buckets := Dict Text (List IPv4Network)

/-- An add source files its collapsed networks under its own slug. -/
def addBucket (buckets : Buckets) (source : SourceContribution) : Buckets :=
  match source.mode with
  | .add => buckets.set source.slug (collapse source.networks)
  | .subtract => buckets

/-- The buckets before any subtraction. -/
def collectBuckets (manual : List IPv4Network) (sources : List SourceContribution) : Buckets :=
  sources.foldl addBucket (Dict.singleton MANUAL_ORIGIN (collapse manual))

/-- A subtract source with a scope is taken out of the bucket it names; a scope without a bucket
is passed over. -/
def subtractScoped (buckets : Buckets) (source : SourceContribution) : Option Buckets :=
  match source.scopeSlug with
  | none => some buckets
  | some target =>
    match buckets.get? target with
    | none => some buckets
    | some bucket => do
      let bucket ← subtractNetworks bucket source.networks
      return buckets.set target bucket

/-- `[s for s in sources if s.mode == "subtract" and s.scope_slug is not None]`. -/
def scopedSources (sources : List SourceContribution) : List SourceContribution :=
  sources.filter fun s => s.mode = .subtract && s.scopeSlug.isSome

/-- `[s for s in sources if s.mode == "subtract" and s.scope_slug is None]`. -/
def globalSources (sources : List SourceContribution) : List SourceContribution :=
  sources.filter fun s => s.mode = .subtract && s.scopeSlug.isNone

/-- A number per source and one for the manual list, measured on the collapsed contribution. -/
def perSource (f : List IPv4Network → ℕ) (manual : List IPv4Network)
    (sources : List SourceContribution) : Dict Text ℕ :=
  (sources.foldl (fun d s => d.set s.slug (f (collapse s.networks))) Dict.empty).set
    MANUAL_ORIGIN (f (collapse manual))

def perBucket (f : List IPv4Network → ℕ) (buckets : Buckets) : Dict Text ℕ :=
  buckets.filterMap fun bucket => if bucket.isEmpty then none else some (f bucket)

/-- The exclusions are taken out of the merged list when there are any. -/
def subtractExclusions (merged exclusions : List IPv4Network) : Option (List IPv4Network) :=
  if exclusions.isEmpty then some merged else subtractNetworks merged exclusions

def mergeSplitList (manual : List IPv4Network) (sources : List SourceContribution)
    (exclusions : List IPv4Network) : Option MergeReport := do
  let collected := collectBuckets manual sources
  let unionBefore := collapse collected.values.flatten
  let buckets ← (scopedSources sources).foldlM subtractScoped collected
  let merged := collapse buckets.values.flatten
  let merged ← (globalSources sources).foldlM (fun l s => subtractNetworks l s.networks) merged
  let merged ← subtractExclusions merged exclusions
  let final := collapse merged
  return {
    prefixes := final.map IPv4.text
    nBeforeSubtract := unionBefore.length
    nAfterSubtract := merged.length
    addressesBefore := addressCount unionBefore
    addressesAfter := addressCount final
    perOrigin := perBucket List.length buckets
    perOriginAddresses := perBucket addressCount buckets
    perSourcePrefixes := perSource List.length manual sources
    perSourceAddresses := perSource addressCount manual sources }

/-! ### What the list is for -/

/-- The addresses of the subtract sources with the given scope. -/
def Subtracted (sources : List SourceContribution) (scope : Option Text) : Set ℕ :=
  {a | ∃ s ∈ sources, s.mode = .subtract ∧ s.scopeSlug = scope ∧ a ∈ cover s.networks}

/-- What the add sources contribute once their scoped subtractions are made. -/
def Added (sources : List SourceContribution) : Set ℕ :=
  {a | ∃ s ∈ sources, s.mode = .add ∧ a ∈ cover s.networks \ Subtracted sources (some s.slug)}

/-- The addresses that are to be routed. -/
def SplitSet (manual : List IPv4Network) (sources : List SourceContribution)
    (exclusions : List IPv4Network) : Set ℕ :=
  ((Added sources ∪ (cover manual \ Subtracted sources (some MANUAL_ORIGIN))) \
    Subtracted sources none) \ cover exclusions

/-! ### Collapsing and subtracting -/

@[simp] theorem cover_collapse (networks : List IPv4Network) :
    cover (collapse networks) = cover networks := by
  rw [collapse, sortNetworks, cover_sort, cover_collapseAddresses]

theorem cover_punch (hole net : IPv4Network) :
    ∃ l, punch hole net = some l ∧ cover l = net.addresses \ hole.addresses := by
  rw [punch]
  cases ho : net.overlaps hole with
  | false =>
    have hdisj : Disjoint net.addresses hole.addresses :=
      not_not.1 fun h => absurd (overlaps_iff.2 h) (by rw [ho]; decide)
    exact ⟨[net], rfl, by rw [cover_cons, cover_nil, Set.union_empty, hdisj.sdiff_eq_left]⟩
  | true =>
    cases hs : net.subnetOf hole with
    | true =>
      have hsub := subnetOf_iff.1 hs
      exact ⟨[], rfl, by rw [cover_nil, Set.sdiff_eq_empty.2 hsub]⟩
    | false => exact cover_addressExclude (subset_of_overlaps ho hs)

theorem cover_punchAll (hole : IPv4Network) (nets : List IPv4Network) :
    ∃ l, punchAll hole nets = some l ∧ cover l = cover nets \ hole.addresses := by
  induction nets with
  | nil => exact ⟨[], rfl, by simp⟩
  | cons net nets ih =>
    obtain ⟨fragments, hf, hcf⟩ := cover_punch hole net
    obtain ⟨remaining, hr, hcr⟩ := ih
    refine ⟨fragments ++ remaining, by rw [punchAll, hf, hr]; rfl, ?_⟩
    rw [cover_append, cover_cons, hcf, hcr, Set.union_sdiff_distrib]

theorem cover_subtractHoles (holes current : List IPv4Network) :
    ∃ l, subtractHoles holes current = some l ∧ cover l = cover current \ cover holes := by
  induction holes generalizing current with
  | nil => exact ⟨current, rfl, by simp⟩
  | cons hole holes ih =>
    rw [subtractHoles]
    cases current with
    | nil => exact ⟨[], rfl, by simp⟩
    | cons net nets =>
      obtain ⟨remaining, hr, hcr⟩ := cover_punchAll hole (net :: nets)
      obtain ⟨l, hl, hcl⟩ := ih remaining
      refine ⟨l, by rw [List.isEmpty_cons, if_neg (by decide), hr]; exact hl, ?_⟩
      rw [hcl, hcr, cover_cons hole, Set.sdiff_sdiff]

/-- **Subtraction is set difference, and never raises.** -/
theorem cover_subtractNetworks (base minus : List IPv4Network) :
    ∃ l, subtractNetworks base minus = some l ∧ cover l = cover base \ cover minus := by
  obtain ⟨l, hl, hc⟩ := cover_subtractHoles (collapse minus) base
  exact ⟨l, hl, by rw [hc, cover_collapse]⟩

/-! ### The buckets -/

/-- The addresses stored under a slug. -/
def bucketCover (buckets : Buckets) (slug : Text) : Set ℕ :=
  {a | ∃ bucket, buckets.get? slug = some bucket ∧ a ∈ cover bucket}

theorem bucketCover_set (buckets : Buckets) (target slug : Text) (bucket : List IPv4Network) :
    bucketCover (buckets.set target bucket) slug =
      if slug = target then cover bucket else bucketCover buckets slug := by
  unfold bucketCover
  rw [Dict.get?_set]
  split_ifs with h <;> simp

theorem bucketCover_of_get? {buckets : Buckets} {slug : Text} {bucket : List IPv4Network}
    (h : buckets.get? slug = some bucket) : bucketCover buckets slug = cover bucket := by
  simp [bucketCover, h]

theorem bucketCover_of_none {buckets : Buckets} {slug : Text} (h : buckets.get? slug = none) :
    bucketCover buckets slug = ∅ := by
  simp [bucketCover, h]

theorem mem_cover_values {buckets : Buckets} {a : ℕ} :
    a ∈ cover buckets.values.flatten ↔ ∃ slug, a ∈ bucketCover buckets slug := by
  simp only [mem_cover, List.mem_flatten, Dict.mem_values_iff, bucketCover, Set.mem_ofPred_eq]
  constructor
  · rintro ⟨n, ⟨bucket, ⟨slug, hg⟩, hn⟩, ha⟩
    exact ⟨slug, bucket, hg, n, hn, ha⟩
  · rintro ⟨slug, bucket, hg, n, hn, ha⟩
    exact ⟨n, ⟨bucket, ⟨slug, hg⟩, hn⟩, ha⟩

theorem bucketCover_foldl_addBucket (sources : List SourceContribution) (buckets : Buckets)
    (hnodup : (sources.map SourceContribution.slug).Nodup)
    (hnew : ∀ s ∈ sources, buckets.get? s.slug = none) (slug : Text) :
    bucketCover (sources.foldl addBucket buckets) slug =
      {a | ∃ s ∈ sources, s.mode = .add ∧ s.slug = slug ∧ a ∈ cover s.networks} ∪
        bucketCover buckets slug := by
  induction sources generalizing buckets with
  | nil => simp
  | cons s sources ih =>
    rw [List.map_cons, List.nodup_cons] at hnodup
    have hs := bucketCover_of_none (hnew s List.mem_cons_self)
    have hne : ∀ t ∈ sources, t.slug ≠ s.slug := fun t ht he =>
      hnodup.1 (he ▸ List.mem_map_of_mem ht)
    have hnew' : ∀ t ∈ sources, (addBucket buckets s).get? t.slug = none := by
      intro t ht
      rw [addBucket]
      cases s.mode with
      | add =>
        simp only
        rw [Dict.get?_set_of_ne _ _ (hne t ht), hnew t (List.mem_cons_of_mem _ ht)]
      | subtract => exact hnew t (List.mem_cons_of_mem _ ht)
    have hstep : bucketCover (addBucket buckets s) slug =
        {a | s.mode = .add ∧ s.slug = slug ∧ a ∈ cover s.networks} ∪ bucketCover buckets slug := by
      rw [addBucket]
      cases s.mode with
      | add =>
        simp only
        rw [bucketCover_set, cover_collapse]
        split_ifs with he
        · simp [he, hs]
        · simp [Ne.symm he]
      | subtract => simp
    rw [List.foldl_cons, ih _ hnodup.2 hnew', hstep]
    ext a
    simp only [Set.mem_union, Set.mem_ofPred_eq, List.exists_mem_cons_iff]
    rw [or_left_comm, or_assoc]

theorem bucketCover_subtractScoped (buckets : Buckets) (source : SourceContribution) :
    ∃ buckets', subtractScoped buckets source = some buckets' ∧ ∀ slug,
      bucketCover buckets' slug =
        bucketCover buckets slug \ {a | source.scopeSlug = some slug ∧ a ∈ cover source.networks} := by
  rw [subtractScoped]
  cases source.scopeSlug with
  | none => exact ⟨buckets, rfl, by simp⟩
  | some target =>
    cases hg : buckets.get? target with
    | none =>
      refine ⟨buckets, by simp only [hg], fun slug => ?_⟩
      by_cases he : target = slug
      · rw [← he, bucketCover_of_none hg, Set.empty_sdiff]
      · simp [he]
    | some bucket =>
      obtain ⟨l, hl, hc⟩ := cover_subtractNetworks bucket source.networks
      refine ⟨buckets.set target l, by simp only [hg, hl]; rfl, fun slug => ?_⟩
      rw [bucketCover_set]
      split_ifs with he
      · rw [hc, he, bucketCover_of_get? hg]
        simp
      · simp [Ne.symm he]

theorem bucketCover_foldlM_subtractScoped (operands : List SourceContribution) (buckets : Buckets) :
    ∃ buckets', operands.foldlM subtractScoped buckets = some buckets' ∧ ∀ slug,
      bucketCover buckets' slug = bucketCover buckets slug \
        {a | ∃ s ∈ operands, s.scopeSlug = some slug ∧ a ∈ cover s.networks} := by
  induction operands generalizing buckets with
  | nil => exact ⟨buckets, rfl, by simp⟩
  | cons s operands ih =>
    obtain ⟨buckets₁, h₁, hc₁⟩ := bucketCover_subtractScoped buckets s
    obtain ⟨buckets₂, h₂, hc₂⟩ := ih buckets₁
    refine ⟨buckets₂, by rw [List.foldlM_cons, h₁]; exact h₂, fun slug => ?_⟩
    rw [hc₂, hc₁, Set.sdiff_sdiff]
    congr 1
    ext a
    simp only [Set.mem_union, Set.mem_ofPred_eq, List.exists_mem_cons_iff]

theorem cover_foldlM_subtractNetworks (globals : List SourceContribution)
    (merged : List IPv4Network) :
    ∃ l, globals.foldlM (fun l s => subtractNetworks l s.networks) merged = some l ∧
      cover l = cover merged \ {a | ∃ s ∈ globals, a ∈ cover s.networks} := by
  induction globals generalizing merged with
  | nil => exact ⟨merged, rfl, by simp⟩
  | cons s globals ih =>
    obtain ⟨l₁, h₁, hc₁⟩ := cover_subtractNetworks merged s.networks
    obtain ⟨l₂, h₂, hc₂⟩ := ih l₁
    refine ⟨l₂, by rw [List.foldlM_cons, h₁]; exact h₂, ?_⟩
    rw [hc₂, hc₁, Set.sdiff_sdiff]
    congr 1
    ext a
    simp only [Set.mem_union, Set.mem_ofPred_eq, List.exists_mem_cons_iff]

theorem cover_subtractExclusions (merged exclusions : List IPv4Network) :
    ∃ l, subtractExclusions merged exclusions = some l ∧
      cover l = cover merged \ cover exclusions := by
  cases exclusions with
  | nil => exact ⟨merged, rfl, by simp⟩
  | cons x xs => exact cover_subtractNetworks merged (x :: xs)

/-! ### The merged list -/

theorem mem_scopedSources {sources : List SourceContribution} {s : SourceContribution} :
    s ∈ scopedSources sources ↔ s ∈ sources ∧ s.mode = .subtract ∧ s.scopeSlug.isSome := by
  simp [scopedSources]

theorem setOf_scopedSources (sources : List SourceContribution) (slug : Text) :
    {a | ∃ s ∈ scopedSources sources, s.scopeSlug = some slug ∧ a ∈ cover s.networks} =
      Subtracted sources (some slug) := by
  ext a
  simp only [Subtracted, Set.mem_ofPred_eq, mem_scopedSources]
  constructor
  · rintro ⟨s, ⟨hs, hm, -⟩, he, ha⟩
    exact ⟨s, hs, hm, he, ha⟩
  · rintro ⟨s, hs, hm, he, ha⟩
    exact ⟨s, ⟨hs, hm, by rw [he]; rfl⟩, he, ha⟩

theorem setOf_globalSources (sources : List SourceContribution) :
    {a | ∃ s ∈ globalSources sources, a ∈ cover s.networks} = Subtracted sources none := by
  ext a
  simp [Subtracted, globalSources, and_assoc]

/-- The buckets hold the manual networks under `manual` and each add source under its slug. -/
theorem bucketCover_collectBuckets (manual : List IPv4Network) (sources : List SourceContribution)
    (hnodup : (sources.map SourceContribution.slug).Nodup)
    (hmanual : ∀ s ∈ sources, s.slug ≠ MANUAL_ORIGIN) (slug : Text) :
    bucketCover (collectBuckets manual sources) slug =
      {a | ∃ s ∈ sources, s.mode = .add ∧ s.slug = slug ∧ a ∈ cover s.networks} ∪
        {a | slug = MANUAL_ORIGIN ∧ a ∈ cover manual} := by
  have hnew : ∀ s ∈ sources,
      (Dict.singleton MANUAL_ORIGIN (collapse manual)).get? s.slug = none := fun s hs => by
    rw [Dict.get?_singleton, if_neg (hmanual s hs)]
  rw [collectBuckets, bucketCover_foldl_addBucket sources _ hnodup hnew]
  congr 1
  unfold bucketCover
  rw [Dict.get?_singleton]
  split_ifs with h <;> simp [h]

theorem mergeSplitList_prefixes (manual : List IPv4Network) (sources : List SourceContribution)
    (exclusions : List IPv4Network) : ∃ report merged,
      mergeSplitList manual sources exclusions = some report ∧
        report.prefixes = (collapse merged).map IPv4.text := by
  obtain ⟨buckets, hb, -⟩ :=
    bucketCover_foldlM_subtractScoped (scopedSources sources) (collectBuckets manual sources)
  obtain ⟨merged, hm, -⟩ :=
    cover_foldlM_subtractNetworks (globalSources sources) (collapse buckets.values.flatten)
  obtain ⟨excluded, he, -⟩ := cover_subtractExclusions merged exclusions
  simp only [mergeSplitList, hb, hm, he, Option.bind_eq_bind, Option.bind_some]
  exact ⟨_, excluded, rfl, rfl⟩

/-- **The merge never raises, and its list covers exactly the addresses that are to be routed.** -/
theorem textCover_mergeSplitList (manual : List IPv4Network) (sources : List SourceContribution)
    (exclusions : List IPv4Network) (hnodup : (sources.map SourceContribution.slug).Nodup)
    (hmanual : ∀ s ∈ sources, s.slug ≠ MANUAL_ORIGIN) :
    ∃ report, mergeSplitList manual sources exclusions = some report ∧
      IPv4.textCover report.prefixes = SplitSet manual sources exclusions := by
  obtain ⟨buckets, hb, hcb⟩ :=
    bucketCover_foldlM_subtractScoped (scopedSources sources) (collectBuckets manual sources)
  obtain ⟨merged, hm, hcm⟩ :=
    cover_foldlM_subtractNetworks (globalSources sources) (collapse buckets.values.flatten)
  obtain ⟨excluded, he, hce⟩ := cover_subtractExclusions merged exclusions
  have hunion : cover buckets.values.flatten =
      Added sources ∪ (cover manual \ Subtracted sources (some MANUAL_ORIGIN)) := by
    ext a
    simp only [mem_cover_values, hcb, setOf_scopedSources,
      bucketCover_collectBuckets manual sources hnodup hmanual]
    constructor
    · rintro ⟨slug, ⟨s, hs, hadd, rfl, ha⟩ | ⟨rfl, ha⟩, hsub⟩
      · exact Or.inl ⟨s, hs, hadd, ha, hsub⟩
      · exact Or.inr ⟨ha, hsub⟩
    · rintro (⟨s, hs, hadd, ha, hsub⟩ | ⟨ha, hsub⟩)
      · exact ⟨s.slug, Or.inl ⟨s, hs, hadd, rfl, ha⟩, hsub⟩
      · exact ⟨MANUAL_ORIGIN, Or.inr ⟨rfl, ha⟩, hsub⟩
  simp only [mergeSplitList, hb, hm, he, Option.bind_eq_bind, Option.bind_some]
  refine ⟨_, rfl, ?_⟩
  simp only [IPv4.textCover_map_text, cover_collapse, hce, hcm, setOf_globalSources, hunion]
  rfl

/-- `10.0.0.0/8`. -/
def net10 : IPv4Network := around (10 * 2 ^ 24) 8 (by decide) (by decide)

/-- `10.1.0.0/16`. -/
def net10x1 : IPv4Network := around (10 * 2 ^ 24 + 2 ^ 16) 16 (by decide) (by decide)

/-- Two sources: `10.0.0.0/8` is added, and `10.1.0.0/16` is taken out of it again. -/
def googSources : List SourceContribution :=
  [⟨"goog".toList, .add, [net10], none⟩, ⟨"cloud".toList, .subtract, [net10x1], some "goog".toList⟩]

theorem textCover_mergeSplitList_goog :
    ∃ report, mergeSplitList [net10x1] googSources [net10x1] = some report ∧
      IPv4.textCover report.prefixes = SplitSet [net10x1] googSources [net10x1] :=
  textCover_mergeSplitList _ _ _ (by decide) (by decide)

end VpnBot.Warp
