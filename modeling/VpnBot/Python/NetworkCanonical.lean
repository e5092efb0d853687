import VpnBot.Python.NetworkSets

/-!
# Collapsed lists are canonical

A list of networks is `Canonical` when it is sorted, its networks are disjoint, and no two of them make
up a network together.  The networks of a canonical list are the largest ones inside the addresses that
it covers (`Canonical.exists_superset`), so that the addresses determine the list
(`Canonical.eq_of_cover_eq`).  `canonical_collapseAddresses` says that collapsing makes a list
canonical: the merging loop leaves one half of every supernet at most, and the final pass keeps
networks that end one after the other.
-/

namespace Py

namespace Network

variable {w : ℕ}

/-- Sorted, disjoint, and with nothing left to merge. -/
structure Canonical (l : List (Network w)) : Prop where
  sorted : l.Pairwise fun n m => n.addr < m.addr
  disjoint : ∀ n ∈ l, ∀ m ∈ l, n ≠ m → Disjoint n.addresses m.addresses
  unmergeable : ∀ n ∈ l, ∀ m ∈ l, n ≠ m → ∀ k : Network w, k.addresses ≠ n.addresses ∪ m.addresses

/-! ### The addresses determine the list -/

variable {l l' : List (Network w)} {n m k : Network w}

theorem Canonical.nodup (h : Canonical l) : l.Nodup :=
  h.sorted.imp fun {n m} hlt => by
    rintro rfl
    exact lt_irrefl _ hlt

/-- Two members with a common address are one. -/
theorem Canonical.eq_of_mem (h : Canonical l) (hn : n ∈ l) (hm : m ∈ l) {a : ℕ}
    (ha : a ∈ n.addresses) (ha' : a ∈ m.addresses) : n = m := by
  by_contra hne
  exact Set.disjoint_left.1 (h.disjoint n hn m hm hne) ha ha'

/-- A network of one address. -/
theorem addresses_eq_singleton (h : n.prefixlen = w) : n.addresses = {n.addr} := by
  ext a
  rw [mem_addresses, numAddresses, h, Nat.sub_self, pow_zero, Set.mem_singleton_iff]
  omega

/-- The halves of a network inside the covered addresses lie in members; these are the halves
themselves, which are mergeable, unless one of them contains the network. -/
theorem Canonical.exists_superset (h : Canonical l) (hk : k.addresses ⊆ cover l) :
    ∃ n ∈ l, k.addresses ⊆ n.addresses := by
  -- on the number of host bits of `k`
  induction hd : w - k.prefixlen generalizing k with
  | zero =>
    have hw : k.prefixlen = w := le_antisymm k.prefixlen_le (Nat.sub_eq_zero_iff_le.1 hd)
    obtain ⟨n, hn, ha⟩ := hk k.addr_mem
    exact ⟨n, hn, by rw [addresses_eq_singleton hw, Set.singleton_subset_iff]; exact ha⟩
  | succ d ih =>
    have hlt : k.prefixlen < w := by omega
    have hfst : (k.subnets hlt).1.addresses ⊆ k.addresses := fun a ha => (mem_subnets hlt).2 (Or.inl ha)
    have hsnd : (k.subnets hlt).2.addresses ⊆ k.addresses := fun a ha => (mem_subnets hlt).2 (Or.inr ha)
    obtain ⟨n, hn, hsubn⟩ := ih (hfst.trans hk) (by simp only [prefixlen_subnets_fst]; omega)
    obtain ⟨m, hm, hsubm⟩ := ih (hsnd.trans hk) (by simp only [prefixlen_subnets_snd]; omega)
    by_cases hkn : n.prefixlen ≤ k.prefixlen
    · exact ⟨n, hn, subset_of_mem hkn (hsubn (addr_mem _)) (hfst (addr_mem _))⟩
    by_cases hkm : m.prefixlen ≤ k.prefixlen
    · exact ⟨m, hm, subset_of_mem hkm (hsubm (addr_mem _)) (hsnd (addr_mem _))⟩
    have hfstn : n = (k.subnets hlt).1 := by
      have hlen := prefixlen_le_of_subset hsubn
      rw [prefixlen_subnets_fst] at hlen
      exact Network.eq_of_mem (by rw [prefixlen_subnets_fst]; omega) (hsubn (addr_mem _)) (addr_mem _)
    have hsndm : m = (k.subnets hlt).2 := by
      have hlen := prefixlen_le_of_subset hsubm
      rw [prefixlen_subnets_snd] at hlen
      exact Network.eq_of_mem (by rw [prefixlen_subnets_snd]; omega) (hsubm (addr_mem _)) (addr_mem _)
    have hne : n ≠ m := by
      rintro rfl
      have hdisj := disjoint_subnets hlt
      rw [← hfstn, ← hsndm] at hdisj
      exact Set.disjoint_left.1 hdisj n.addr_mem n.addr_mem
    refine absurd ?_ (h.unmergeable n hn m hm hne k)
    rw [hfstn, hsndm]
    exact Set.ext fun a => mem_subnets hlt

theorem Canonical.mem_of_cover_eq (h : Canonical l) (h' : Canonical l') (hcover : cover l = cover l')
    (hn : n ∈ l) : n ∈ l' := by
  have hsub : n.addresses ⊆ cover l := fun a ha => ⟨n, hn, ha⟩
  obtain ⟨m, hm, hnm⟩ := h'.exists_superset (hcover ▸ hsub)
  have hsub' : m.addresses ⊆ cover l' := fun a ha => ⟨m, hm, ha⟩
  obtain ⟨n', hn', hmn⟩ := h.exists_superset (hcover ▸ hsub')
  obtain rfl := h.eq_of_mem hn hn' n.addr_mem (hmn (hnm n.addr_mem))
  rw [eq_of_addresses_eq (hnm.antisymm hmn)]
  exact hm

/-- **Canonical lists that cover the same addresses are equal.** -/
theorem Canonical.eq_of_cover_eq (h : Canonical l) (h' : Canonical l') (hcover : cover l = cover l') :
    l = l' := by
  have hperm : l.Perm l' := by
    apply (List.perm_ext_iff_of_nodup h.nodup h'.nodup).2
    exact fun n => ⟨h.mem_of_cover_eq h' hcover, h'.mem_of_cover_eq h hcover.symm⟩
  apply List.Perm.eq_of_pairwise _ h.sorted h'.sorted hperm
  intro a b _ _ hab hba
  exact absurd hab (lt_asymm hba)

/-! ### Collapsing makes a list canonical -/

/-- Two different disjoint networks that make up a third one are its halves. -/
theorem supernet_of_eq_union (hdisj : Disjoint n.addresses m.addresses)
    (hk : k.addresses = n.addresses ∪ m.addresses) : n.supernet = k := by
  have hn : n.addresses ⊆ k.addresses := hk ▸ Set.subset_union_left
  have hm : m.addresses ⊆ k.addresses := hk ▸ Set.subset_union_right
  have hnlen : k.prefixlen < n.prefixlen := by
    refine lt_of_le_of_ne (prefixlen_le_of_subset hn) fun he => ?_
    obtain rfl := eq_of_mem he (hn n.addr_mem) n.addr_mem
    exact Set.disjoint_left.1 hdisj (hm m.addr_mem) m.addr_mem
  have hmlen : k.prefixlen < m.prefixlen := by
    refine lt_of_le_of_ne (prefixlen_le_of_subset hm) fun he => ?_
    obtain rfl := eq_of_mem he (hm m.addr_mem) m.addr_mem
    exact Set.disjoint_left.1 hdisj n.addr_mem (hn n.addr_mem)
  have hlt : k.prefixlen < w := lt_of_lt_of_le hnlen n.prefixlen_le
  have hhalves := disjoint_subnets hlt
  -- the half without `m` lies in `n`
  have hhalf : ∃ half : Network w, half.prefixlen = k.prefixlen + 1 ∧ half.addresses ⊆ n.addresses := by
    have inside : ∀ half : Network w, half.addresses ⊆ k.addresses → Disjoint half.addresses m.addresses →
        half.addresses ⊆ n.addresses := by
      intro half hhalf hd a ha
      have hor : a ∈ n.addresses ∪ m.addresses := hk ▸ hhalf ha
      exact hor.resolve_right (Set.disjoint_left.1 hd ha)
    rcases subset_half hlt hmlen hm with h | h
    · exact ⟨(k.subnets hlt).2, prefixlen_subnets_snd k hlt,
        inside _ (fun a ha => (mem_subnets hlt).2 (Or.inr ha)) (hhalves.mono_left h).symm⟩
    · exact ⟨(k.subnets hlt).1, prefixlen_subnets_fst k hlt,
        inside _ (fun a ha => (mem_subnets hlt).2 (Or.inl ha)) (hhalves.mono_right h)⟩
  obtain ⟨half, hlen, hsub⟩ := hhalf
  have hle := prefixlen_le_of_subset hsub
  exact eq_of_mem (by rw [prefixlen_supernet]; omega) (n.subset_supernet n.addr_mem) (hn n.addr_mem)

theorem halvesBySupernet_collapseLoop (i : ℕ) (toMerge : List (Network w))
    (subnets : Dict (Network w) (Network w)) (h : HalvesBySupernet subnets) :
    HalvesBySupernet (collapseLoop i toMerge subnets) := by
  induction i generalizing toMerge subnets with
  | zero => exact h
  | succ i ih =>
    cases toMerge with
    | nil => exact h
    | cons n toMerge =>
      rw [collapseLoop]
      split
      · exact ih _ _ (h.set n)
      · split_ifs
        · exact ih _ _ h
        · exact ih _ _ (h.erase _)

theorem HalvesBySupernet.eq_of_supernet_eq {subnets : Dict (Network w) (Network w)}
    (h : HalvesBySupernet subnets) (hn : n ∈ subnets.values) (hm : m ∈ subnets.values)
    (hs : n.supernet = m.supernet) : n = m := by
  obtain ⟨i, hi⟩ := Dict.mem_values_iff.1 hn
  obtain ⟨j, hj⟩ := Dict.mem_values_iff.1 hm
  rw [h i n hi] at hi
  rw [h j m hj, ← hs] at hj
  exact Option.some.inj (hi.symm.trans hj)

theorem dropSubsumed_sublist (last : Option (Network w)) (l : List (Network w)) :
    (dropSubsumed last l).Sublist l := by
  induction l generalizing last with
  | nil => cases last <;> exact List.Sublist.refl _
  | cons n l ih =>
    cases last with
    | none => exact (ih (some n)).cons_cons n
    | some last =>
      rw [dropSubsumed]
      split_ifs
      · exact (ih (some last)).cons n
      · exact (ih (some n)).cons_cons n

/-- A later network that does not end inside the last one kept starts after it. -/
theorem broadcast_lt_addr (hle : le n m) (hb : n.broadcast < m.broadcast) : n.broadcast < m.addr := by
  have hn := n.numAddresses_pos
  have hm := m.numAddresses_pos
  rcases nest_or_disjoint n m with h | h | h
  · have hsub := subnetOf_iff.2 h
    simp only [subnetOf, Bool.and_eq_true, decide_eq_true_eq] at hsub
    omega
  · have hlen := prefixlen_le_of_subset h
    have haddr := h n.addr_mem
    rw [mem_addresses] at haddr
    unfold le at hle
    have heq : n = m := ext (by omega) (by omega)
    rw [heq] at hb
    exact absurd hb (lt_irrefl _)
  · by_contra hlt
    refine Set.disjoint_left.1 h ?_ m.addr_mem
    rw [mem_addresses]
    unfold le at hle
    unfold broadcast at hlt hb
    omega

theorem dropSubsumed_pairwise (last : Option (Network w)) (l : List (Network w)) (hl : l.Pairwise le)
    (hlast : ∀ m ∈ last, ∀ n ∈ l, le m n) :
    (last.toList ++ dropSubsumed last l).Pairwise fun n m => n.broadcast < m.addr := by
  induction l generalizing last with
  | nil => cases last <;> simp [dropSubsumed]
  | cons n l ih =>
    rw [List.pairwise_cons] at hl
    have ihn := ih (some n) hl.2 (by simpa using hl.1)
    cases last with
    | none => exact ihn
    | some last =>
      have ihlast := ih (some last) hl.2 fun m hm k hk => hlast m hm k (List.mem_cons_of_mem _ hk)
      rw [dropSubsumed]
      split_ifs with hb
      · exact ihlast
      · have hfirst : last.broadcast < n.addr :=
          broadcast_lt_addr (hlast last rfl n List.mem_cons_self) (not_le.1 hb)
        refine List.pairwise_cons.2 ⟨fun m hm => ?_, ihn⟩
        rcases List.mem_cons.1 hm with rfl | hm
        · exact hfirst
        · have hnm := (List.pairwise_cons.1 ihn).1 m hm
          have := n.numAddresses_pos
          unfold broadcast at hfirst hnm ⊢
          omega

/-- **A collapsed list is canonical.** -/
theorem canonical_collapseAddresses (l : List (Network w)) : Canonical (collapseAddresses l) := by
  have hhalves : HalvesBySupernet (collapseLoop (2 * l.length) l.reverse Dict.empty) :=
    halvesBySupernet_collapseLoop _ _ _ halvesBySupernet_empty
  have hsorted := List.pairwise_insertionSort le
    (collapseLoop (2 * l.length) l.reverse Dict.empty).values
  have hends : (collapseAddresses l).Pairwise fun n m => n.broadcast < m.addr :=
    dropSubsumed_pairwise none _ hsorted (by simp)
  have hpairwise : (collapseAddresses l).Pairwise fun n m => Disjoint n.addresses m.addresses := by
    refine hends.imp fun {n m} hlt => Set.disjoint_left.2 fun a ha ha' => ?_
    rw [mem_addresses] at ha ha'
    unfold broadcast at hlt
    omega
  have hdisj : ∀ n ∈ collapseAddresses l, ∀ m ∈ collapseAddresses l, n ≠ m →
      Disjoint n.addresses m.addresses := fun n hn m hm hne =>
    hpairwise.forall hn hm hne
  refine ⟨hends.imp fun {n m} hlt => ?_, hdisj, fun n hn m hm hne k hk => hne ?_⟩
  · have := n.numAddresses_pos
    unfold broadcast at hlt
    omega
  · have hnm := hdisj n hn m hm hne
    have hvalue : ∀ n ∈ collapseAddresses l,
        n ∈ (collapseLoop (2 * l.length) l.reverse Dict.empty).values := fun n hn =>
      mem_sort.1 ((dropSubsumed_sublist none _).subset hn)
    refine hhalves.eq_of_supernet_eq (hvalue n hn) (hvalue m hm) ?_
    rw [supernet_of_eq_union hnm hk, supernet_of_eq_union hnm.symm (Set.union_comm _ _ ▸ hk)]

theorem Canonical.sort_eq (h : Canonical l) : sort l = l := by
  apply List.Pairwise.insertionSort_eq
  exact h.sorted.imp fun hlt => Or.inl hlt

end Network

end Py
