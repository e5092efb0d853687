import Mathlib
import VpnBot.Python.Text

/-!
# Networks of a fixed address width

A `Network w` is a prefix of the `w`-bit address space: a first address and a prefix length, with
the host bits of the address clear.  It is the `IPv4Network` of Python's `ipaddress` module for
`w = 32`.  The file has the operations of that module on networks (`overlaps`, `subnetOf`,
`supernet`, `subnets`) and their meaning in terms of the set of addresses of a network:

* `nest_or_disjoint`: two networks nest or are disjoint;
* `overlaps_iff`, `subnetOf_iff`: the two comparisons by end points.
-/

namespace Py

/-- A prefix of the `w`-bit addresses: the host bits of `addr` are zero. -/
structure Network (w : ℕ) where
  addr : ℕ
  prefixlen : ℕ
  prefixlen_le : prefixlen ≤ w
  host_zero : 2 ^ (w - prefixlen) ∣ addr
  addr_lt : addr < 2 ^ w
  deriving DecidableEq

variable {n m : Network w}

namespace Network

variable {w : ℕ}

@[ext] theorem ext (ha : n.addr = m.addr) (hp : n.prefixlen = m.prefixlen) :
    n = m := by
  cases n; cases m; cases ha; cases hp; rfl

/-- The number of addresses, `num_addresses`. -/
def numAddresses (n : Network w) : ℕ := 2 ^ (w - n.prefixlen)

/-- The last address, `broadcast_address`. -/
def broadcast (n : Network w) : ℕ := n.addr + n.numAddresses - 1

/-- The set of addresses of a network. -/
def addresses (n : Network w) : Set ℕ := Set.Ico n.addr (n.addr + n.numAddresses)

theorem numAddresses_pos (n : Network w) : 0 < n.numAddresses := Nat.two_pow_pos _

theorem mem_addresses {n : Network w} {a : ℕ} :
    a ∈ n.addresses ↔ n.addr ≤ a ∧ a < n.addr + n.numAddresses := Iff.rfl

theorem addr_mem (n : Network w) : n.addr ∈ n.addresses :=
  ⟨le_rfl, Nat.lt_add_of_pos_right n.numAddresses_pos⟩

theorem mem_iff_div {n : Network w} {a : ℕ} :
    a ∈ n.addresses ↔ a / n.numAddresses = n.addr / n.numAddresses := by
  obtain ⟨k, hk⟩ : n.numAddresses ∣ n.addr := n.host_zero
  have hpos := n.numAddresses_pos
  rw [mem_addresses, hk, Nat.mul_div_cancel_left k hpos, Nat.div_eq_iff hpos]
  constructor
  · rintro ⟨h1, h2⟩
    rw [Nat.mul_comm] at h1 h2
    omega
  · rintro ⟨h1, h2⟩
    rw [Nat.mul_comm]
    omega

/-- A shorter prefix has a size that is a multiple. -/
theorem numAddresses_mul (h : n.prefixlen ≤ m.prefixlen) :
    n.numAddresses = m.numAddresses * 2 ^ (m.prefixlen - n.prefixlen) := by
  have := m.prefixlen_le
  rw [numAddresses, numAddresses, ← pow_add]
  congr 1
  omega

theorem subset_of_mem (h : n.prefixlen ≤ m.prefixlen) {a : ℕ}
    (hn : a ∈ n.addresses) (hm : a ∈ m.addresses) : m.addresses ⊆ n.addresses := by
  intro b hb
  rw [mem_iff_div] at hn hm hb ⊢
  rw [← hn, numAddresses_mul h, ← Nat.div_div_eq_div_mul, ← Nat.div_div_eq_div_mul, hb, hm]

/-- **Two networks nest or are disjoint.** -/
theorem nest_or_disjoint (n m : Network w) :
    m.addresses ⊆ n.addresses ∨ n.addresses ⊆ m.addresses ∨
      Disjoint n.addresses m.addresses := by
  by_cases hd : Disjoint n.addresses m.addresses
  · exact Or.inr (Or.inr hd)
  · obtain ⟨a, hn, hm⟩ := Set.not_disjoint_iff.1 hd
    rcases le_total n.prefixlen m.prefixlen with h | h
    · exact Or.inl (subset_of_mem h hn hm)
    · exact Or.inr (Or.inl (subset_of_mem h hm hn))

/-! ### Comparisons by end points -/

/-- `a in n`. -/
def hasAddress (n : Network w) (a : ℕ) : Bool := n.addr ≤ a && a ≤ n.broadcast

/-- `n.overlaps(m)`: one of the four end points lies in the other network. -/
def overlaps (n m : Network w) : Bool :=
  n.hasAddress m.addr || (n.hasAddress m.broadcast ||
    (m.hasAddress n.addr || m.hasAddress n.broadcast))

/-- `n.subnet_of(m)`. -/
def subnetOf (n m : Network w) : Bool := m.addr ≤ n.addr && n.broadcast ≤ m.broadcast

theorem hasAddress_iff {n : Network w} {a : ℕ} : n.hasAddress a = true ↔ a ∈ n.addresses := by
  have := n.numAddresses_pos
  simp only [hasAddress, Bool.and_eq_true, decide_eq_true_eq]
  rw [broadcast, mem_addresses]
  omega

theorem subnetOf_iff : n.subnetOf m = true ↔ n.addresses ⊆ m.addresses := by
  have hn := n.numAddresses_pos
  have hm := m.numAddresses_pos
  rw [addresses, addresses, Set.Ico_subset_Ico_iff (by omega)]
  simp only [subnetOf, Bool.and_eq_true, decide_eq_true_eq]
  rw [broadcast, broadcast]
  omega

theorem overlaps_iff :
    n.overlaps m = true ↔ ¬ Disjoint n.addresses m.addresses := by
  have hb : ∀ k : Network w, k.broadcast ∈ k.addresses := fun k => by
    have := k.numAddresses_pos
    rw [mem_addresses, broadcast]
    omega
  simp only [overlaps, Bool.or_eq_true, hasAddress_iff, Set.not_disjoint_iff]
  constructor
  · rintro (h | h | h | h)
    · exact ⟨m.addr, h, m.addr_mem⟩
    · exact ⟨m.broadcast, h, hb m⟩
    · exact ⟨n.addr, n.addr_mem, h⟩
    · exact ⟨n.broadcast, hb n, h⟩
  · rintro ⟨a, hn, hm⟩
    rw [mem_addresses] at hn hm ⊢
    rw [mem_addresses, mem_addresses, mem_addresses]
    omega

theorem subset_of_overlaps (ho : n.overlaps m = true)
    (hs : n.subnetOf m = false) : m.addresses ⊆ n.addresses := by
  rcases nest_or_disjoint n m with h | h | h
  · exact h
  · rw [subnetOf_iff.2 h] at hs
    cases hs
  · exact absurd h (overlaps_iff.1 ho)

/-- Nested networks have nested prefix lengths. -/
theorem prefixlen_le_of_subset (h : m.addresses ⊆ n.addresses) :
    n.prefixlen ≤ m.prefixlen := by
  by_contra hlt
  have hlt : m.prefixlen < n.prefixlen := not_le.1 hlt
  have hsize : n.numAddresses < m.numAddresses := by
    have := n.prefixlen_le
    exact Nat.pow_lt_pow_right (by decide) (by omega)
  have hm := m.numAddresses_pos
  have hb := h (show m.addr + m.numAddresses - 1 ∈ m.addresses by rw [mem_addresses]; omega)
  have ha := h m.addr_mem
  rw [mem_addresses] at ha hb
  omega

/-- A network is determined by a member and its prefix length. -/
theorem eq_of_mem {a : ℕ} (hp : n.prefixlen = m.prefixlen)
    (hn : a ∈ n.addresses) (hm : a ∈ m.addresses) : n = m := by
  have h1 := subset_of_mem hp.le hn hm m.addr_mem
  have h2 := subset_of_mem hp.ge hm hn n.addr_mem
  rw [mem_addresses] at h1 h2
  exact ext (by omega) hp

theorem eq_of_addresses_eq (h : n.addresses = m.addresses) : n = m :=
  eq_of_mem (le_antisymm (prefixlen_le_of_subset h.ge) (prefixlen_le_of_subset h.le))
    n.addr_mem (h ▸ n.addr_mem)

/-! ### Supernet and subnets -/

/-- The network of prefix length `p` around an address: the host bits are cleared. -/
def around (a p : ℕ) (ha : a < 2 ^ w) (hp : p ≤ w) : Network w where
  addr := a - a % 2 ^ (w - p)
  prefixlen := p
  prefixlen_le := hp
  host_zero := Nat.dvd_sub_mod a
  addr_lt := lt_of_le_of_lt (Nat.sub_le _ _) ha

theorem mem_around (a p : ℕ) (ha : a < 2 ^ w) (hp : p ≤ w) : a ∈ (around a p ha hp).addresses := by
  have h1 := Nat.mod_lt a (Nat.two_pow_pos (w - p))
  have h2 := Nat.mod_le a (2 ^ (w - p))
  simp only [mem_addresses, around, numAddresses]
  omega

/-- `n.supernet()`: one bit less, the whole address space being its own supernet. -/
def supernet (n : Network w) : Network w :=
  around n.addr (n.prefixlen - 1) n.addr_lt (by have := n.prefixlen_le; omega)

@[simp] theorem prefixlen_supernet (n : Network w) : n.supernet.prefixlen = n.prefixlen - 1 := rfl

theorem subset_supernet (n : Network w) : n.addresses ⊆ n.supernet.addresses :=
  subset_of_mem (by simp) (mem_around _ _ _ _) n.addr_mem

theorem addr_add_le (n : Network w) : n.addr + n.numAddresses ≤ 2 ^ w := by
  obtain ⟨k, hk⟩ : n.numAddresses ∣ n.addr := n.host_zero
  obtain ⟨j, hj⟩ : n.numAddresses ∣ 2 ^ w := pow_dvd_pow 2 (Nat.sub_le _ _)
  have hlt := n.addr_lt
  rw [hk, hj] at hlt ⊢
  have := Nat.lt_of_mul_lt_mul_left hlt
  calc n.numAddresses * k + n.numAddresses = n.numAddresses * (k + 1) := by ring
    _ ≤ n.numAddresses * j := Nat.mul_le_mul_left _ this

/-- The two halves `n.subnets()` of a network with at least two addresses. -/
def subnets (n : Network w) (h : n.prefixlen < w) : Network w × Network w :=
  have hs : n.numAddresses = 2 ^ (w - (n.prefixlen + 1)) * 2 := by
    rw [numAddresses, ← pow_succ]
    congr 1
    omega
  have hd : 2 ^ (w - (n.prefixlen + 1)) ∣ n.addr :=
    Dvd.dvd.trans ⟨2, hs⟩ n.host_zero
  (⟨n.addr, n.prefixlen + 1, h, hd, n.addr_lt⟩,
   ⟨n.addr + 2 ^ (w - (n.prefixlen + 1)), n.prefixlen + 1, h, Nat.dvd_add hd dvd_rfl, by
      have := n.addr_add_le
      have := Nat.two_pow_pos (w - (n.prefixlen + 1))
      omega⟩)

theorem mem_subnets {n : Network w} (h : n.prefixlen < w) {a : ℕ} :
    a ∈ n.addresses ↔ a ∈ (n.subnets h).1.addresses ∨ a ∈ (n.subnets h).2.addresses := by
  have hs : n.numAddresses = 2 ^ (w - (n.prefixlen + 1)) * 2 := by
    rw [numAddresses, ← pow_succ]
    congr 1
    omega
  rw [mem_addresses, mem_addresses, mem_addresses, hs]
  simp only [subnets, numAddresses]
  omega

theorem disjoint_subnets {n : Network w} (h : n.prefixlen < w) :
    Disjoint (n.subnets h).1.addresses (n.subnets h).2.addresses := by
  rw [Set.disjoint_left]
  intro a h1 h2
  rw [mem_addresses] at h1 h2
  simp only [subnets, numAddresses] at h1 h2
  omega

@[simp] theorem prefixlen_subnets_fst (n : Network w) (h : n.prefixlen < w) :
    (n.subnets h).1.prefixlen = n.prefixlen + 1 := rfl

@[simp] theorem prefixlen_subnets_snd (n : Network w) (h : n.prefixlen < w) :
    (n.subnets h).2.prefixlen = n.prefixlen + 1 := rfl

theorem subset_half {n m : Network w} (h : n.prefixlen < w) (hp : n.prefixlen < m.prefixlen)
    (hs : m.addresses ⊆ n.addresses) :
    m.addresses ⊆ (n.subnets h).1.addresses ∨ m.addresses ⊆ (n.subnets h).2.addresses := by
  rcases (mem_subnets h).1 (hs m.addr_mem) with h1 | h1
  · exact Or.inl (subset_of_mem hp h1 m.addr_mem)
  · exact Or.inr (subset_of_mem hp h1 m.addr_mem)

theorem supernet_eq_union {n m : Network w} (hs : n.supernet = m.supernet) (hne : n ≠ m) :
    n.supernet.addresses = n.addresses ∪ m.addresses := by
  refine Set.Subset.antisymm ?_ (Set.union_subset n.subset_supernet (hs ▸ m.subset_supernet))
  have hlen : n.prefixlen - 1 = m.prefixlen - 1 := by
    rw [← prefixlen_supernet n, hs, prefixlen_supernet]
  -- the whole address space is its own supernet
  by_cases hn : n.prefixlen = 0
  · have : n.supernet = n := eq_of_mem (by simp [hn]) (n.subset_supernet n.addr_mem) n.addr_mem
    rw [this]
    exact Set.subset_union_left
  by_cases hm : m.prefixlen = 0
  · have : m.supernet = m := eq_of_mem (by simp [hm]) (m.subset_supernet m.addr_mem) m.addr_mem
    rw [hs, this]
    exact Set.subset_union_right
  -- otherwise both are halves of the supernet, and different ones
  have hlt : n.supernet.prefixlen < w := by
    have := n.prefixlen_le
    simp only [prefixlen_supernet]
    omega
  have half : ∀ k : Network w, k.prefixlen = n.prefixlen →
      k.addresses ⊆ n.supernet.addresses →
      k = (n.supernet.subnets hlt).1 ∨ k = (n.supernet.subnets hlt).2 := by
    intro k hk hsub
    have hpk : n.supernet.prefixlen < k.prefixlen := by
      simp only [prefixlen_supernet]
      omega
    rcases subset_half hlt hpk hsub with h | h
    · exact Or.inl (eq_of_mem (by simp; omega) k.addr_mem (h k.addr_mem))
    · exact Or.inr (eq_of_mem (by simp; omega) k.addr_mem (h k.addr_mem))
  intro a ha
  have ha := (mem_subnets hlt).1 ha
  rcases half n rfl n.subset_supernet with h1 | h1 <;>
    rcases half m (by omega) (hs ▸ m.subset_supernet) with h2 | h2
  · exact absurd (h1.trans h2.symm) hne
  · rwa [← h1, ← h2] at ha
  · rw [← h1, ← h2] at ha
    exact ha.symm
  · exact absurd (h1.trans h2.symm) hne

end Network

end Py
