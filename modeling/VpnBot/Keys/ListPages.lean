import VpnBot.Keys.KeyList
import VpnBot.Python.Basic

/-!
# The pages of the list of keys and subscriptions

Without subscriptions the pages of the list are the pages of one query, and they list every visible key once.
With subscriptions each page is cut out of the merge of two windows.  The query of the keys leaves the order
of keys of the same second open, the merge does not: a key that the query delivers a page later than the merge
wants it is on no page, and another one is listed twice (`two_keys_of_one_second`).

`pages_partition_iff`: the pages list every entry exactly once, newest first and all full but the last, exactly
when there is no such key.
-/

namespace VpnBot.Keys

open Py Sys

namespace Services

variable (services : Services) (actor : ℤ) (owner : Option ℤ)

/-! ### The list as a whole -/

/-- The keys that the actor sees, as the query delivers them. -/
def keyEntries : List Entry :=
  (services.orderedKeys (target actor owner) owner.isNone).map Entry.key

/-- The subscriptions that the actor sees. -/
def bundleEntries : List Entry :=
  if services.includeBundles owner then (services.orderedBundles actor).map Entry.bundle else []

/-- Everything that the actor sees. -/
def entries : List Entry := services.keyEntries actor owner ++ services.bundleEntries actor owner

/-- The entries by their sort key. -/
def mergedList : List Entry := sortedByDesc listItemSortKey (services.entries actor owner)

def pageCount (pageSize : ℕ) : ℕ :=
  totalPages pageSize (services.keyEntries actor owner).length (services.bundleEntries actor owner).length

def pageItems (pageSize page : ℕ) : List Entry :=
  match services.loadListPage actor owner pageSize page with
  | .ok (items, _) => items
  | .error _ => []

/-- The pages one after the other. -/
def allItems (pageSize : ℕ) : List Entry :=
  (List.range (services.pageCount actor owner pageSize)).flatMap (services.pageItems actor owner pageSize)

/-- The pages list everything exactly once, in one order, and only the last one may not be full. -/
structure PagesPartition (pageSize : ℕ) : Prop where
  loads : ∀ page < services.pageCount actor owner pageSize, ∃ items,
    services.loadListPage actor owner pageSize page =
      .ok (items, page, services.pageCount actor owner pageSize,
        decide (page + 1 < services.pageCount actor owner pageSize))
  exactlyOnce : (services.allItems actor owner pageSize).Perm (services.entries actor owner)
  newestFirst : (services.allItems actor owner pageSize).Pairwise fun a b => b.createdAt ≤ a.createdAt
  bySortKey : services.bundleEntries actor owner ≠ [] →
    (services.allItems actor owner pageSize).Pairwise fun a b => listItemSortKey b < listItemSortKey a
  full : ∀ page, page + 1 < services.pageCount actor owner pageSize →
    (services.pageItems actor owner pageSize page).length = pageSize

def MaySee : Prop := services.requireKeys actor owner = .ok (target actor owner)

/-- There are no subscriptions, or no key is on a later page of its query than of the merge. -/
def NoKeyLate (pageSize : ℕ) : Prop :=
  services.bundleEntries actor owner = [] ∨ ∀ entry ∈ services.keyEntries actor owner,
    (services.keyEntries actor owner).idxOf entry / pageSize ≤
      (services.mergedList actor owner).idxOf entry / pageSize

variable {services actor owner} {pageSize page : ℕ} {row : KeyRow} {bundle : BundleRow}

/-! ### The entries -/

theorem mem_keyEntries {entry : Entry} (h : entry ∈ services.keyEntries actor owner) :
    ∃ row ∈ services.keys, entry = .key row := by
  obtain ⟨row, hrow, rfl⟩ := List.mem_map.1 h
  exact ⟨row, List.mem_of_mem_filter ((perm_sortedByDesc _ _).mem_iff.1 hrow), rfl⟩

theorem mem_bundleEntries {entry : Entry} (h : entry ∈ services.bundleEntries actor owner) :
    ∃ row ∈ services.bundles, entry = .bundle row := by
  unfold bundleEntries at h
  split_ifs at h
  · obtain ⟨row, hrow, rfl⟩ := List.mem_map.1 h
    exact ⟨row, List.mem_of_mem_filter ((perm_sortedByDesc _ _).mem_iff.1 hrow), rfl⟩
  · cases h

theorem nodup_keyEntries : (services.keyEntries actor owner).Nodup := by
  refine List.Nodup.map (fun a b hab => Entry.key.inj hab) ?_
  exact (perm_sortedByDesc _ _).nodup_iff.2 (services.keyIds.of_map.filter _)

theorem nodup_bundleEntries : (services.bundleEntries actor owner).Nodup := by
  unfold bundleEntries
  split_ifs
  · refine List.Nodup.map (fun a b hab => Entry.bundle.inj hab) ?_
    exact (perm_sortedByDesc _ _).nodup_iff.2 (services.bundleIds.of_map.filter _)
  · exact List.nodup_nil

theorem nodup_entries : (services.entries actor owner).Nodup := by
  refine List.Nodup.append nodup_keyEntries nodup_bundleEntries fun entry hkey hbundle => ?_
  obtain ⟨row, -, rfl⟩ := mem_keyEntries hkey
  obtain ⟨row', -, hrow'⟩ := mem_bundleEntries hbundle
  cases hrow'

theorem eq_of_listItemSortKey_eq : ∀ a ∈ services.entries actor owner, ∀ b ∈ services.entries actor owner,
    listItemSortKey a = listItemSortKey b → a = b := by
  intro a ha b hb hab
  rcases List.mem_append.1 ha with ha | ha <;> rcases List.mem_append.1 hb with hb | hb
  · obtain ⟨row, hrow, rfl⟩ := mem_keyEntries ha
    obtain ⟨row', hrow', rfl⟩ := mem_keyEntries hb
    simp only [listItemSortKey, EmbeddingLike.apply_eq_iff_eq, Prod.mk.injEq, true_and] at hab
    rw [List.inj_on_of_nodup_map services.keyIds hrow hrow' hab.2]
  · obtain ⟨row, hrow, rfl⟩ := mem_keyEntries ha
    obtain ⟨row', hrow', rfl⟩ := mem_bundleEntries hb
    simp [listItemSortKey] at hab
  · obtain ⟨row, hrow, rfl⟩ := mem_bundleEntries ha
    obtain ⟨row', hrow', rfl⟩ := mem_keyEntries hb
    simp [listItemSortKey] at hab
  · obtain ⟨row, hrow, rfl⟩ := mem_bundleEntries ha
    obtain ⟨row', hrow', rfl⟩ := mem_bundleEntries hb
    simp only [listItemSortKey, EmbeddingLike.apply_eq_iff_eq, Prod.mk.injEq, true_and] at hab
    rw [List.inj_on_of_nodup_map services.bundleIds hrow hrow' hab.2]

theorem pairwise_bundleEntries :
    (services.bundleEntries actor owner).Pairwise fun a b => listItemSortKey b ≤ listItemSortKey a := by
  unfold bundleEntries
  split_ifs
  · refine List.pairwise_map.2 ((pairwise_sortedByDesc _ _).imp fun {a b} hab => ?_)
    simp only [Prod.Lex.le_iff, ofLex_toLex, listItemSortKey] at hab ⊢
    rcases hab with hlt | ⟨heq, hle⟩
    · exact Or.inl hlt
    · exact Or.inr ⟨heq, Or.inr ⟨trivial, hle⟩⟩
  · exact List.Pairwise.nil

theorem createdAt_le_of_sortKey_le {a b : Entry} (h : listItemSortKey b ≤ listItemSortKey a) :
    b.createdAt ≤ a.createdAt := by
  have hfirst : ∀ entry : Entry, (ofLex (listItemSortKey entry)).1 = entry.createdAt := by
    intro entry
    cases entry <;> rfl
  rw [Prod.Lex.le_iff, hfirst, hfirst] at h
  rcases h with hlt | ⟨heq, -⟩
  · exact hlt.le
  · exact heq.le

/-! ### The page that is loaded -/

theorem length_keyEntries : (services.keyEntries actor owner).length =
    (services.ownedKeys (target actor owner) owner.isNone).length := by
  rw [keyEntries, List.length_map, orderedKeys]
  exact (perm_sortedByDesc _ _).length_eq

theorem exists_user (hsee : services.MaySee actor owner) :
    ∃ user, services.requireApprovedOrAdmin actor = .ok user := by
  unfold MaySee requireKeys at hsee
  obtain ⟨user, huser, -⟩ := bind_eq_ok.1 hsee
  exact ⟨user, huser⟩

theorem loadTotals_eq (hsee : services.MaySee actor owner) : services.loadTotals actor owner =
    .ok ((services.keyEntries actor owner).length, (services.bundleEntries actor owner).length) := by
  obtain ⟨user, huser⟩ := exists_user hsee
  unfold loadTotals
  rw [show services.requireKeys actor owner = .ok (target actor owner) from hsee, length_keyEntries]
  by_cases hinclude : services.includeBundles owner = true
  · have hlength : (services.bundleEntries actor owner).length =
        (services.bundles.filter fun row => row.userId = actor).length := by
      rw [bundleEntries, if_pos hinclude, List.length_map, orderedBundles]
      exact (perm_sortedByDesc _ _).length_eq
    simp only [bind, Except.bind, hinclude, huser, if_true, hlength]
    rfl
  · have hnone : services.bundleEntries actor owner = [] := if_neg hinclude
    simp only [bind, Except.bind, hinclude, hnone, List.length_nil]
    rfl

theorem take_clampLimit {α : Type} {l : List α} (hl : l.length ≤ 500) (n : ℕ) :
    l.take (clampLimit n) = l.take n := by
  rw [List.take_eq_take_iff, clampLimit]
  omega

/-! ### The number of pages -/

theorem mul_lt_of_lt_totalPages {keys bundles : ℕ} (hsize : 0 < pageSize) (hpos : 0 < page)
    (h : page < totalPages pageSize keys bundles) : page * pageSize < keys + bundles := by
  rcases lt_max_iff.1 h with hone | hdiv
  · omega
  · have hmul := (Nat.le_div_iff_mul_le hsize).1 (Nat.succ_le_of_lt hdiv)
    rw [Nat.succ_mul] at hmul
    omega

theorem le_totalPages_mul {keys bundles : ℕ} (hsize : 0 < pageSize) :
    keys + bundles ≤ totalPages pageSize keys bundles * pageSize := by
  have hdiv := Nat.div_add_mod (keys + bundles + pageSize - 1) pageSize
  have hmod := Nat.mod_lt (keys + bundles + pageSize - 1) hsize
  have hle := Nat.mul_le_mul_right pageSize
    (le_max_right 1 ((keys + bundles + pageSize - 1) / pageSize))
  rw [Nat.mul_comm pageSize] at hdiv
  unfold totalPages
  omega

/-- The page that is loaded, for totals of at most five hundred. -/
def itemsOf (services : Services) (actor : ℤ) (owner : Option ℤ) (pageSize page : ℕ) : List Entry :=
  if services.bundleEntries actor owner = [] then pageOf pageSize page (services.keyEntries actor owner)
  else windowPage (fun entry => OrderDual.toDual (listItemSortKey entry)) (services.keyEntries actor owner)
    (services.bundleEntries actor owner) pageSize page

variable (hsee : services.MaySee actor owner) (hkeys : (services.keyEntries actor owner).length ≤ 500)
  (hbundles : (services.bundleEntries actor owner).length ≤ 500)
include hsee hkeys hbundles

theorem loadPage_eq (hpage : page ≤ 10000) :
    services.loadPage actor owner pageSize page (services.bundleEntries actor owner).length =
      .ok (services.itemsOf actor owner pageSize page) := by
  obtain ⟨user, huser⟩ := exists_user hsee
  have hordered : (services.orderedKeys (target actor owner) owner.isNone).length ≤ 500 := by
    rwa [keyEntries, List.length_map] at hkeys
  have hoffset : pageOffset page pageSize = page * pageSize := by rw [pageOffset, min_eq_left hpage]
  unfold loadPage itemsOf
  rw [show services.requireKeys actor owner = .ok (target actor owner) from hsee, hoffset]
  simp only [bind, Except.bind, List.length_eq_zero_iff, huser]
  split_ifs with hnone
  · have hrest : ((services.orderedKeys (target actor owner) owner.isNone).drop
        (page * pageSize)).length ≤ 500 := by
      rw [List.length_drop]
      omega
    rw [listByOwner, take_clampLimit hrest, pageOf, keyEntries, List.map_take, List.map_drop]
    rfl
  · have hinclude : services.includeBundles owner = true := by
      by_contra hnot
      exact hnone (if_neg hnot)
    have hbundleList : services.bundleEntries actor owner =
        (services.orderedBundles actor).map Entry.bundle := if_pos hinclude
    have hshort : (services.orderedBundles actor).length ≤ 500 := by
      rwa [hbundleList, List.length_map] at hbundles
    have hwindow : ∀ {α : Type} {l : List α}, l.length ≤ 500 →
        l.take (clampLimit (min ((page + 1) * pageSize) 500)) = l.take ((page + 1) * pageSize) := by
      intro α l hl
      rw [List.take_eq_take_iff, clampLimit]
      omega
    rw [listByOwner, listByUser, List.drop_zero, hwindow hordered, hwindow hshort, hbundleList]
    simp only [windowPage, windowRows, keyEntries, List.map_take, pageOf]
    rfl

omit hsee in
theorem page_le (hsize : 0 < pageSize) (hpage : page < services.pageCount actor owner pageSize) :
    page ≤ 10000 := by
  rcases Nat.eq_zero_or_pos page with rfl | hpos
  · exact Nat.zero_le _
  · have hlt := mul_lt_of_lt_totalPages hsize hpos hpage
    have hle := Nat.le_mul_of_pos_right page hsize
    omega

omit hsee hkeys hbundles in
theorem itemsOf_ne_nil (hsize : 0 < pageSize) (hpos : 0 < page)
    (hpage : page < services.pageCount actor owner pageSize) :
    services.itemsOf actor owner pageSize page ≠ [] := by
  have hlt := mul_lt_of_lt_totalPages hsize hpos hpage
  unfold itemsOf
  split_ifs with hnone
  · rw [hnone, List.length_nil] at hlt
    rw [pageOf, ← List.length_pos_iff, List.length_take, List.length_drop]
    omega
  · exact windowPage_ne_nil hlt hsize

theorem loadListPage_eq (hsize : 0 < pageSize) (hpage : page < services.pageCount actor owner pageSize) :
    services.loadListPage actor owner pageSize page =
      .ok (services.itemsOf actor owner pageSize page, page, services.pageCount actor owner pageSize,
        decide (page + 1 < services.pageCount actor owner pageSize)) := by
  have hclamp : (min (max (page : ℤ) 0) ((services.pageCount actor owner pageSize : ℤ) - 1)).toNat =
      page := by omega
  unfold loadListPage
  rw [loadTotals_eq hsee]
  simp only [bind, Except.bind]
  rw [← pageCount, hclamp, loadPage_eq hsee hkeys hbundles (page_le hkeys hbundles hsize hpage)]
  simp only
  rw [if_neg fun h => itemsOf_ne_nil hsize h.2 hpage h.1]
  rfl

theorem pageItems_eq (hsize : 0 < pageSize) (hpage : page < services.pageCount actor owner pageSize) :
    services.pageItems actor owner pageSize page = services.itemsOf actor owner pageSize page := by
  rw [pageItems, loadListPage_eq hsee hkeys hbundles hsize hpage]

theorem allItems_eq (hsize : 0 < pageSize) : services.allItems actor owner pageSize =
    (List.range (services.pageCount actor owner pageSize)).flatMap
      (services.itemsOf actor owner pageSize) := by
  refine List.flatMap_congr fun page hpage => ?_
  exact pageItems_eq hsee hkeys hbundles hsize (List.mem_range.1 hpage)

omit hsee hkeys hbundles

/-! ### When the pages list everything once -/

theorem flatMap_itemsOf_of_nil (hsize : 0 < pageSize) (hnone : services.bundleEntries actor owner = []) :
    (List.range (services.pageCount actor owner pageSize)).flatMap
      (services.itemsOf actor owner pageSize) = services.keyEntries actor owner := by
  have hpages : services.itemsOf actor owner pageSize =
      fun page => pageOf pageSize page (services.keyEntries actor owner) := by
    funext page
    exact if_pos hnone
  rw [hpages]
  refine flatMap_pageOf_of_le ?_
  have hle : (services.keyEntries actor owner).length + (services.bundleEntries actor owner).length ≤
      services.pageCount actor owner pageSize * pageSize := le_totalPages_mul hsize
  omega

theorem itemsOf_of_ne_nil (hsome : services.bundleEntries actor owner ≠ []) :
    services.itemsOf actor owner pageSize = windowPage
      (fun entry => OrderDual.toDual (listItemSortKey entry)) (services.keyEntries actor owner)
      (services.bundleEntries actor owner) pageSize := by
  funext page
  exact if_neg hsome

theorem flatMap_itemsOf_perm_iff (hsize : 0 < pageSize) (hsome : services.bundleEntries actor owner ≠ []) :
    ((List.range (services.pageCount actor owner pageSize)).flatMap
      (services.itemsOf actor owner pageSize)).Perm (services.entries actor owner) ↔
      ∀ entry ∈ services.keyEntries actor owner, (services.keyEntries actor owner).idxOf entry / pageSize ≤
        (services.mergedList actor owner).idxOf entry / pageSize := by
  rw [itemsOf_of_ne_nil hsome]
  refine flatMap_windowPage_perm_iff nodup_entries ?_ pairwise_bundleEntries hsize ?_
  · intro a ha b hb hab
    exact eq_of_listItemSortKey_eq a ha b hb (OrderDual.toDual.injective hab)
  · rw [List.length_append]
    exact le_totalPages_mul hsize

theorem flatMap_itemsOf_of_ne_nil (hsize : 0 < pageSize) (hsome : services.bundleEntries actor owner ≠ [])
    (hearly : ∀ entry ∈ services.keyEntries actor owner,
      (services.keyEntries actor owner).idxOf entry / pageSize ≤
        (services.mergedList actor owner).idxOf entry / pageSize) :
    (List.range (services.pageCount actor owner pageSize)).flatMap
      (services.itemsOf actor owner pageSize) = services.mergedList actor owner := by
  have hinj : ∀ a ∈ services.entries actor owner, ∀ b ∈ services.entries actor owner,
      OrderDual.toDual (listItemSortKey a) = OrderDual.toDual (listItemSortKey b) → a = b :=
    fun a ha b hb hab => eq_of_listItemSortKey_eq a ha b hb (OrderDual.toDual.injective hab)
  have hpages : services.itemsOf actor owner pageSize =
      fun page => pageOf pageSize page (services.mergedList actor owner) := by
    funext page
    rw [itemsOf_of_ne_nil hsome]
    exact windowPage_eq nodup_entries hinj pairwise_bundleEntries hsize hearly page
  rw [hpages]
  refine flatMap_pageOf_of_le ?_
  have hlength : (services.mergedList actor owner).length =
      (services.keyEntries actor owner).length + (services.bundleEntries actor owner).length := by
    rw [mergedList, (perm_sortedByDesc _ _).length_eq, entries, List.length_append]
  rw [hlength]
  exact le_totalPages_mul hsize

theorem pairwise_mergedList : (services.mergedList actor owner).Pairwise fun a b =>
    listItemSortKey b < listItemSortKey a := by
  have hnodup : (services.mergedList actor owner).Nodup :=
    (perm_sortedByDesc _ _).nodup_iff.2 nodup_entries
  refine ((pairwise_sortedByDesc listItemSortKey _).and hnodup).imp_of_mem ?_
  rintro a b ha hb ⟨hle, hne⟩
  refine lt_of_le_of_ne hle fun heq => hne ?_
  exact eq_of_listItemSortKey_eq a ((perm_sortedByDesc _ _).mem_iff.1 ha) b
    ((perm_sortedByDesc _ _).mem_iff.1 hb) heq.symm

theorem pairwise_keyEntries :
    (services.keyEntries actor owner).Pairwise fun a b => b.createdAt ≤ a.createdAt :=
  List.pairwise_map.2 (pairwise_sortedByDesc _ _)

theorem length_itemsOf (hsize : 0 < pageSize) (hpage : page + 1 < services.pageCount actor owner pageSize) :
    (services.itemsOf actor owner pageSize page).length = pageSize := by
  have hlt := mul_lt_of_lt_totalPages hsize (Nat.succ_pos page) hpage
  unfold itemsOf
  split_ifs with hnone
  · rw [hnone, List.length_nil] at hlt
    exact length_pageOf hlt.le
  · exact length_windowPage hlt.le

end Services

open Services

/-- **The pages list everything that the actor sees exactly once** when there are no subscriptions or no key
comes late, and only then. -/
theorem pages_partition_iff (services : Services) (actor : ℤ) (owner : Option ℤ) (pageSize : ℕ)
    (hsize : 0 < pageSize) (hsee : services.MaySee actor owner)
    (hkeys : (services.keyEntries actor owner).length ≤ 500)
    (hbundles : (services.bundleEntries actor owner).length ≤ 500) :
    services.PagesPartition actor owner pageSize ↔ services.NoKeyLate actor owner pageSize := by
  have hall := allItems_eq hsee hkeys hbundles hsize
  constructor
  · intro h
    by_cases hnone : services.bundleEntries actor owner = []
    · exact Or.inl hnone
    · exact Or.inr ((flatMap_itemsOf_perm_iff hsize hnone).1 (hall ▸ h.exactlyOnce))
  · intro h
    have hloads : ∀ page < services.pageCount actor owner pageSize, ∃ items,
        services.loadListPage actor owner pageSize page =
          .ok (items, page, services.pageCount actor owner pageSize,
            decide (page + 1 < services.pageCount actor owner pageSize)) :=
      fun page hpage => ⟨_, loadListPage_eq hsee hkeys hbundles hsize hpage⟩
    have hfull : ∀ page, page + 1 < services.pageCount actor owner pageSize →
        (services.pageItems actor owner pageSize page).length = pageSize := by
      intro page hpage
      rw [pageItems_eq hsee hkeys hbundles hsize (Nat.lt_of_succ_lt hpage)]
      exact length_itemsOf hsize hpage
    by_cases hnone : services.bundleEntries actor owner = []
    · rw [flatMap_itemsOf_of_nil hsize hnone] at hall
      refine ⟨hloads, ?_, ?_, fun hsome => absurd hnone hsome, hfull⟩
      · rw [hall, entries, hnone, List.append_nil]
      · rw [hall]
        exact pairwise_keyEntries
    · rw [flatMap_itemsOf_of_ne_nil hsize hnone (h.resolve_left hnone)] at hall
      refine ⟨hloads, ?_, ?_, fun _ => ?_, hfull⟩
      · rw [hall]
        exact perm_sortedByDesc _ _
      · rw [hall]
        exact pairwise_mergedList.imp fun hlt => createdAt_le_of_sortKey_le hlt.le
      · rw [hall]
        exact pairwise_mergedList

/-! ### Two keys of one second -/

/-- A user with two keys of one second and an older subscription; the query delivers the first key first. -/
def twoKeys : Services where
  users := fun id => if id = 7 then some ⟨.approvedUser, none⟩ else none
  keys := [⟨1, 7, .active, "2026-01-01T00:00:05".toList, none⟩, ⟨2, 7, .active, "2026-01-01T00:00:05".toList, none⟩]
  bundles := [⟨1, 7, "2026-01-01T00:00:00".toList⟩]
  subscriptionEnabled := true
  keyIds := by decide
  bundleIds := by decide

/-- In pages of one entry the first key is on two pages, and the second one on none. -/
theorem two_keys_of_one_second : ¬ twoKeys.PagesPartition 7 none 1 := by
  intro h
  have hmissing : Entry.key ⟨2, 7, .active, "2026-01-01T00:00:05".toList, none⟩ ∉
      twoKeys.allItems 7 none 1 := by decide +kernel
  exact hmissing (h.exactlyOnce.mem_iff.2 (by decide +kernel))

/-- In pages of two entries both keys are on the first page. -/
theorem pages_partition_pagesOfTwo : twoKeys.PagesPartition 7 none 2 := by
  have hsee : twoKeys.MaySee 7 none := by
    unfold Services.MaySee
    rfl
  refine (pages_partition_iff twoKeys 7 none 2 (by decide) hsee (by decide +kernel) (by decide +kernel)).2
    (Or.inr ?_)
  decide +kernel

end VpnBot.Keys
