import VpnBot.Python.Dict
import VpnBot.Python.Network

/-!
# Lists of networks: exclusion and collapsing

`cover l` is the set of addresses of a list of networks.  `addressExclude` takes a network out of
a larger one by halving, `collapseAddresses` merges siblings until none are left and then drops the
networks that lie in another one; both follow the algorithms of Python's `ipaddress`.  Their
meaning is a statement about `cover`: `cover_addressExclude` and `cover_collapseAddresses`.
-/

namespace Py

namespace Network

variable {w : ℕ}

/-- The addresses of a list of networks. -/
def cover (l : List (Network w)) : Set ℕ := {a | ∃ n ∈ l, a ∈ n.addresses}

theorem mem_cover {l : List (Network w)} {a : ℕ} : a ∈ cover l ↔ ∃ n ∈ l, a ∈ n.addresses := Iff.rfl

@[simp] theorem cover_nil : cover ([] : List (Network w)) = ∅ := by
  ext a; simp [mem_cover]

@[simp] theorem cover_cons (n : Network w) (l : List (Network w)) :
    cover (n :: l) = n.addresses ∪ cover l := by
  ext a; simp [mem_cover]

@[simp] theorem cover_append (l m : List (Network w)) : cover (l ++ m) = cover l ∪ cover m := by
  ext a; simp [mem_cover, or_and_right, exists_or]

theorem cover_congr {l m : List (Network w)} (h : ∀ n, n ∈ l ↔ n ∈ m) : cover l = cover m := by
  ext a; simp [mem_cover, h]

theorem cover_perm {l m : List (Network w)} (h : l.Perm m) : cover l = cover m :=
  cover_congr fun _ => h.mem_iff

/-! ### Taking a network out of a larger one -/

/-- The loop of `address_exclude`: the half without `m` is yielded, the other one is halved next,
until after `k` halvings the half with `m` is `m` itself. -/
def excludeLoop : ℕ → Network w → Network w → List (Network w)
  | 0, _, _ => []
  | k + 1, n, m =>
    if h : n.prefixlen < w then
      if m.subnetOf (n.subnets h).1 then (n.subnets h).2 :: excludeLoop k (n.subnets h).1 m
      else (n.subnets h).1 :: excludeLoop k (n.subnets h).2 m
    else []

/-- `n.address_exclude(m)`; `none` is the `ValueError` for a network that is not inside `n`. -/
def addressExclude (n m : Network w) : Option (List (Network w)) :=
  if m.subnetOf n then some (excludeLoop (m.prefixlen - n.prefixlen) n m) else none

theorem cover_excludeLoop (k : ℕ) (n m : Network w) (hk : n.prefixlen + k = m.prefixlen)
    (hs : m.addresses ⊆ n.addresses) : cover (excludeLoop k n m) = n.addresses \ m.addresses := by
  induction k generalizing n with
  | zero =>
    have : n = m := eq_of_mem hk (hs m.addr_mem) m.addr_mem
    rw [this, Set.sdiff_self, excludeLoop, cover_nil]
  | succ k ih =>
    have hlt : n.prefixlen < w := by
      have := m.prefixlen_le
      omega
    have hdisj := disjoint_subnets hlt
    have hunion : n.addresses = (n.subnets hlt).1.addresses ∪ (n.subnets hlt).2.addresses :=
      Set.ext fun _ => mem_subnets hlt
    rw [excludeLoop, dif_pos hlt]
    split_ifs with h1
    · have h1 := subnetOf_iff.1 h1
      rw [cover_cons, ih _ (by simp; omega) h1, hunion, Set.union_comm, Set.union_sdiff_distrib,
        (Disjoint.mono_left h1 hdisj).symm.sdiff_eq_left]
    · have h2 : m.addresses ⊆ (n.subnets hlt).2.addresses :=
        (subset_half hlt (by omega) hs).resolve_left fun h => h1 (subnetOf_iff.2 h)
      rw [cover_cons, ih _ (by simp; omega) h2, hunion, Set.union_sdiff_distrib,
        (Disjoint.mono_right h2 hdisj).sdiff_eq_left]

/-- **The fragments cover the difference.** -/
theorem cover_addressExclude {n m : Network w} (hs : m.addresses ⊆ n.addresses) :
    ∃ l, n.addressExclude m = some l ∧ cover l = n.addresses \ m.addresses := by
  have hp := prefixlen_le_of_subset hs
  exact ⟨_, if_pos (subnetOf_iff.2 hs), cover_excludeLoop _ n m (by omega) hs⟩

/-! ### Sorting -/

/-- The order of networks: by address, then by mask length. -/
def le (n m : Network w) : Prop := n.addr < m.addr ∨ n.addr = m.addr ∧ n.prefixlen ≤ m.prefixlen

instance : DecidableRel (le (w := w)) := fun n m =>
  inferInstanceAs (Decidable (n.addr < m.addr ∨ n.addr = m.addr ∧ n.prefixlen ≤ m.prefixlen))

instance : Std.Total (le (w := w)) := ⟨fun n m => by unfold le; omega⟩

instance : IsTrans (Network w) le := ⟨fun n m k h1 h2 => by unfold le at *; omega⟩

/-- `sorted(l)`. -/
def sort (l : List (Network w)) : List (Network w) := l.insertionSort le

theorem mem_sort {l : List (Network w)} {n : Network w} : n ∈ sort l ↔ n ∈ l :=
  (List.perm_insertionSort le l).mem_iff

@[simp] theorem cover_sort (l : List (Network w)) : cover (sort l) = cover l :=
  cover_perm (List.perm_insertionSort le l)

/-! ### Collapsing -/

/-- The merging loop of `collapse_addresses`: `toMerge` is a stack, `subnets` maps a supernet to
the one half seen so far.  A second, different half puts the supernet back on the stack. -/
def collapseLoop : ℕ → List (Network w) → Dict (Network w) (Network w) →
    Dict (Network w) (Network w)
  | 0, _, subnets => subnets
  | _ + 1, [], subnets => subnets
  | k + 1, n :: toMerge, subnets =>
    match subnets.get? n.supernet with
    | none => collapseLoop k toMerge (subnets.set n.supernet n)
    | some existing =>
      if existing = n then collapseLoop k toMerge subnets
      else collapseLoop k (n.supernet :: toMerge) (subnets.erase n.supernet)

/-- The final pass of `collapse_addresses` over the sorted networks: a network that ends no later
than the last one kept is skipped. -/
def dropSubsumed : Option (Network w) → List (Network w) → List (Network w)
  | _, [] => []
  | none, n :: l => n :: dropSubsumed (some n) l
  | some last, n :: l =>
    if n.broadcast ≤ last.broadcast then dropSubsumed (some last) l
    else n :: dropSubsumed (some n) l

/-- `collapse_addresses(l)`.  Each round of the loop shortens `2 * len(to_merge) + len(subnets)`. -/
def collapseAddresses (l : List (Network w)) : List (Network w) :=
  dropSubsumed none (sort (collapseLoop (2 * l.length) l.reverse Dict.empty).values)

/-- Every entry of `subnets` is stored under its supernet. -/
def HalvesBySupernet (subnets : Dict (Network w) (Network w)) : Prop :=
  ∀ k n, subnets.get? k = some n → k = n.supernet

theorem cover_values_set {subnets : Dict (Network w) (Network w)} {k n : Network w}
    (h : subnets.get? k = none) :
    cover (subnets.set k n).values = n.addresses ∪ cover subnets.values := by
  rw [← cover_cons]
  refine cover_congr fun m => ?_
  rw [List.mem_cons, Dict.mem_values_iff, Dict.mem_values_iff]
  simp only [Dict.get?_set]
  constructor
  · rintro ⟨k', hk'⟩
    split_ifs at hk' with he
    · exact Or.inl (Option.some.inj hk').symm
    · exact Or.inr ⟨k', hk'⟩
  · rintro (rfl | ⟨k', hk'⟩)
    · exact ⟨k, if_pos rfl⟩
    · refine ⟨k', ?_⟩
      rw [if_neg, hk']
      rintro rfl
      rw [h] at hk'
      cases hk'

theorem cover_values_erase {subnets : Dict (Network w) (Network w)} {k n : Network w}
    (h : subnets.get? k = some n) :
    cover subnets.values = n.addresses ∪ cover (subnets.erase k).values := by
  rw [← cover_cons]
  refine cover_congr fun m => ?_
  rw [List.mem_cons, Dict.mem_values_iff, Dict.mem_values_iff]
  simp only [Dict.get?_erase]
  constructor
  · rintro ⟨k', hk'⟩
    by_cases he : k' = k
    · rw [he, h] at hk'
      exact Or.inl (Option.some.inj hk').symm
    · exact Or.inr ⟨k', by rw [if_neg he, hk']⟩
  · rintro (rfl | ⟨k', hk'⟩)
    · exact ⟨k, h⟩
    · split_ifs at hk' with he
      exact ⟨k', hk'⟩

theorem HalvesBySupernet.set {subnets : Dict (Network w) (Network w)} (h : HalvesBySupernet subnets)
    (n : Network w) : HalvesBySupernet (subnets.set n.supernet n) := by
  intro k m hm
  rw [Dict.get?_set] at hm
  split_ifs at hm with he
  · rw [he, Option.some.inj hm]
  · exact h k m hm

theorem HalvesBySupernet.erase {subnets : Dict (Network w) (Network w)}
    (h : HalvesBySupernet subnets) (k : Network w) : HalvesBySupernet (subnets.erase k) := by
  intro k' m hm
  rw [Dict.get?_erase] at hm
  split_ifs at hm
  exact h k' m hm

theorem halvesBySupernet_empty : HalvesBySupernet (Dict.empty : Dict (Network w) (Network w)) := by
  intro k n h
  simp at h

theorem length_set {subnets : Dict (Network w) (Network w)} {k n : Network w}
    (h : subnets.get? k = none) : (subnets.set k n).items.length = subnets.items.length + 1 := by
  rw [Dict.set, dif_neg (Dict.get?_eq_none_iff.1 h), List.length_append, List.length_singleton]

theorem cover_collapseLoop (k : ℕ) (toMerge : List (Network w))
    (subnets : Dict (Network w) (Network w)) (hs : HalvesBySupernet subnets)
    (hk : 2 * toMerge.length + subnets.items.length ≤ k) :
    cover (collapseLoop k toMerge subnets).values = cover toMerge ∪ cover subnets.values := by
  induction k generalizing toMerge subnets with
  | zero =>
    have : toMerge = [] := List.length_eq_zero_iff.1 (by omega)
    simp [this, collapseLoop]
  | succ k ih =>
    cases toMerge with
    | nil => simp [collapseLoop]
    | cons n toMerge =>
      rw [List.length_cons] at hk
      rw [collapseLoop]
      cases hg : subnets.get? n.supernet with
      | none =>
        simp only
        rw [ih _ _ (hs.set n) (by rw [length_set hg]; omega), cover_values_set hg, cover_cons,
          Set.union_left_comm, Set.union_assoc]
      | some existing =>
        have hex : existing.addresses ⊆ cover subnets.values := fun a ha =>
          ⟨existing, Dict.mem_values_iff.2 ⟨_, hg⟩, ha⟩
        simp only
        split_ifs with he
        · subst he
          rw [ih _ _ hs (by omega), cover_cons, Set.union_assoc, eq_comm,
            Set.union_eq_self_of_subset_left (hex.trans Set.subset_union_right)]
        · have hlen := Dict.length_erase_lt hg
          rw [ih _ _ (hs.erase _) (by rw [List.length_cons]; omega), cover_cons, cover_cons,
            supernet_eq_union (hs _ _ hg) (Ne.symm he), cover_values_erase hg]
          simp only [Set.union_assoc, Set.union_left_comm]

theorem cover_dropSubsumed (last : Option (Network w)) (l : List (Network w))
    (hl : l.Pairwise le) (hlast : ∀ m ∈ last, ∀ n ∈ l, le m n) :
    (cover (last.toList) ∪ cover (dropSubsumed last l)) = cover last.toList ∪ cover l := by
  induction l generalizing last with
  | nil => cases last <;> rfl
  | cons n l ih =>
    rw [List.pairwise_cons] at hl
    have ihn := ih (some n) hl.2 (by simpa using hl.1)
    simp only [Option.toList_some, cover_cons, cover_nil, Set.union_empty] at ihn
    cases last with
    | none => simp [dropSubsumed, ihn]
    | some last =>
      have ihlast := ih (some last) hl.2 fun m hm k hk => hlast m hm k (List.mem_cons_of_mem _ hk)
      simp only [Option.toList_some, cover_cons, cover_nil, Set.union_empty] at ihlast ⊢
      rw [dropSubsumed]
      split_ifs with hb
      · have hle : le last n := hlast last rfl n List.mem_cons_self
        have hsub : n.addresses ⊆ last.addresses := by
          rw [← subnetOf_iff]
          unfold subnetOf
          unfold le at hle
          simp only [Bool.and_eq_true, decide_eq_true_eq]
          exact ⟨by omega, hb⟩
        rw [ihlast, ← Set.union_assoc, Set.union_eq_self_of_subset_right hsub]
      · rw [cover_cons, ihn]

/-- **Collapsing keeps the set of addresses.** -/
@[simp] theorem cover_collapseAddresses (l : List (Network w)) :
    cover (collapseAddresses l) = cover l := by
  have hsorted := List.pairwise_insertionSort le
    (collapseLoop (2 * l.length) l.reverse Dict.empty).values
  have hdrop := cover_dropSubsumed none _ hsorted (by simp)
  simp only [Option.toList_none, cover_nil, Set.empty_union] at hdrop
  rw [collapseAddresses, sort, hdrop, ← sort, cover_sort, cover_collapseLoop]
  · rw [cover_perm (List.reverse_perm l)]
    simp [Dict.values]
  · exact halvesBySupernet_empty
  · simp

end Network

end Py
