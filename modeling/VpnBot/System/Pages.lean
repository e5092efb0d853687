import Mathlib.Algebra.Order.Group.Nat
import Mathlib.Data.List.Nodup
import Mathlib.Tactic.Linarith
import Mathlib.Tactic.Ring
import VpnBot.Python.Sorting

/-!
# Pages of a merge

Two queries are merged by a key that tells their rows apart, and the merge is shown in pages of `size` rows.
A page is cut out of the merge of two windows, the first rows of each query down to the end of the page
(`windowPage`).  The second query is sorted by the key; the first one need not be.

Together the pages list each row once exactly when no row stands on a later page of the first query than of
the merge, and then each page is the one of the whole merge (`flatMap_windowPage_perm_iff`).
-/

namespace Sys

open Py

variable {α : Type} {l : List α} {size page : ℕ}

/-! ### Pages of a list -/

def pageOf (size page : ℕ) (l : List α) : List α := (l.drop (page * size)).take size

theorem pageOf_eq (size page : ℕ) (l : List α) :
    pageOf size page l = (l.take ((page + 1) * size)).drop (page * size) := by
  rw [pageOf, List.drop_take, Nat.add_mul, Nat.one_mul, Nat.add_sub_cancel_left]

theorem flatMap_pageOf (size n : ℕ) (l : List α) :
    (List.range n).flatMap (fun page => pageOf size page l) = l.take (n * size) := by
  induction n with
  | zero => simp
  | succ n ih =>
    rw [List.range_succ, List.flatMap_append, ih, List.flatMap_singleton, pageOf, Nat.add_mul, Nat.one_mul,
      List.take_add]

theorem flatMap_pageOf_of_le {n : ℕ} (h : l.length ≤ n * size) :
    (List.range n).flatMap (fun page => pageOf size page l) = l := by
  rw [flatMap_pageOf, List.take_of_length_le h]

theorem length_pageOf (h : (page + 1) * size ≤ l.length) : (pageOf size page l).length = size := by
  rw [Nat.add_mul, Nat.one_mul] at h
  rw [pageOf, List.length_take, List.length_drop]
  omega

variable {x : α}

/-- The page of a row is the quotient of its place. -/
theorem mem_take_of_div_le [DecidableEq α] {n : ℕ} (hsize : 0 < size) (hx : x ∈ l) (h : l.idxOf x / size ≤ n) :
    x ∈ l.take ((n + 1) * size) := by
  rw [List.mem_take_iff_idxOf_lt hx]
  exact (Nat.div_lt_iff_lt_mul hsize).1 (Nat.lt_succ_of_le h)

theorem div_le_of_mem_take [DecidableEq α] {n : ℕ} (hsize : 0 < size) (hx : x ∈ l) (h : x ∈ l.take ((n + 1) * size)) :
    l.idxOf x / size ≤ n := by
  rw [List.mem_take_iff_idxOf_lt hx] at h
  exact Nat.lt_succ_iff.1 ((Nat.div_lt_iff_lt_mul hsize).2 h)

theorem mem_drop_of_mem_drop_filter {p : α → Bool} {n : ℕ} (h : x ∈ (l.filter p).drop n) :
    x ∈ l.drop n := by
  rw [← List.take_append_drop n l, List.filter_append] at h
  have hshort : ((l.take n).filter p).length ≤ n :=
    (List.length_filter_le _ _).trans (List.length_take_le n l)
  rw [List.drop_append, List.drop_of_length_le hshort, List.nil_append] at h
  exact List.mem_of_mem_filter (List.mem_of_mem_drop h)

theorem pageOf_filter {p : α → Bool} (h : ∀ y ∈ l.take ((page + 1) * size), p y = true) :
    pageOf size page (l.filter p) = pageOf size page l := by
  have htake : (l.filter p).take ((page + 1) * size) = l.take ((page + 1) * size) := by
    conv_lhs => rw [← List.take_append_drop ((page + 1) * size) l]
    rw [List.filter_append, List.filter_eq_self.2 h, List.take_append, List.take_take, min_self]
    rcases Nat.le_total ((page + 1) * size) l.length with hle | hle
    · rw [List.length_take_of_le hle, Nat.sub_self, List.take_zero, List.append_nil]
    · rw [List.drop_of_length_le hle]
      simp
  rw [pageOf_eq, pageOf_eq, htake]

/-! ### Windows of two queries -/

section Merge

variable {κ : Type} [LinearOrder κ] (key : α → κ) (first second : List α)

/-- The rows of both queries, down to `n` of each. -/
def windowRows (n : ℕ) : List α := first.take n ++ second.take n

/-- The merge of both queries. -/
def merge : List α := sortedBy key (first ++ second)

/-- A page, cut out of the merge of two windows. -/
def windowPage (size page : ℕ) : List α :=
  pageOf size page (sortedBy key (windowRows first second ((page + 1) * size)))

variable {key first second} {x : α} {n : ℕ}

theorem windowRows_sublist (n : ℕ) : (windowRows first second n).Sublist (first ++ second) :=
  (List.take_sublist n first).append (List.take_sublist n second)

theorem length_windowRows : (windowRows first second n).length = min n first.length + min n second.length := by
  rw [windowRows, List.length_append, List.length_take, List.length_take]

theorem windowPage_ne_nil (h : page * size < first.length + second.length) (hsize : 0 < size) :
    windowPage key first second size page ≠ [] := by
  rw [windowPage, pageOf, ← List.length_pos_iff, List.length_take, List.length_drop, length_sortedBy,
    length_windowRows, Nat.add_mul, Nat.one_mul]
  omega

theorem length_windowPage (h : (page + 1) * size ≤ first.length + second.length) :
    (windowPage key first second size page).length = size := by
  refine length_pageOf ?_
  rw [length_sortedBy, length_windowRows]
  omega

@[simp] theorem mem_merge : x ∈ merge key first second ↔ x ∈ first ∨ x ∈ second := by
  rw [merge, mem_sortedBy, List.mem_append]

variable (hnodup : (first ++ second).Nodup)
  (hkey : ∀ a ∈ first ++ second, ∀ b ∈ first ++ second, key a = key b → a = b)
include hnodup

theorem nodup_merge : (merge key first second).Nodup := (perm_sortedBy key _).nodup_iff.2 hnodup

variable [DecidableEq α]
include hkey

theorem sortedBy_windowRows (n : ℕ) : sortedBy key (windowRows first second n) =
    (merge key first second).filter fun y => y ∈ windowRows first second n := by
  have hsub : (windowRows first second n).Sublist (first ++ second) := windowRows_sublist n
  refine (eq_sortedBy (fun a ha b hb => hkey a (hsub.mem ha) b (hsub.mem hb)) ?_
    ((pairwise_sortedBy key _).filter _)).symm
  refine (List.perm_ext_iff_of_nodup ((nodup_merge hnodup).filter _) (hnodup.sublist hsub)).2 fun y => ?_
  rw [List.mem_filter, mem_merge, ← List.mem_append, decide_eq_true_iff]
  exact ⟨fun h => h.2, fun h => ⟨hsub.mem h, h⟩⟩

/-- A sorted query is a part of the merge: its rows stand nowhere later in it. -/
theorem mem_take_second (hsecond : second.Pairwise fun a b => key a ≤ key b) (hx : x ∈ second)
    (h : x ∈ (merge key first second).take n) : x ∈ second.take n := by
  have hpart : (merge key first second).filter (fun y => y ∈ second) = second := by
    have hinj : ∀ a ∈ second, ∀ b ∈ second, key a = key b → a = b := fun a ha b hb =>
      hkey a (List.mem_append_right _ ha) b (List.mem_append_right _ hb)
    refine (eq_sortedBy hinj ?_ ((pairwise_sortedBy key _).filter _)).trans
      (eq_sortedBy hinj (List.Perm.refl _) hsecond).symm
    refine (List.perm_ext_iff_of_nodup ((nodup_merge hnodup).filter _)
      (List.nodup_append'.1 hnodup).2.1).2 fun y => ?_
    rw [List.mem_filter, mem_merge, decide_eq_true_iff]
    exact ⟨fun h => h.2, fun h => ⟨Or.inr h, h⟩⟩
  have hbegins : ((merge key first second).take n).filter (fun y => y ∈ second) <+: second := by
    have := List.IsPrefix.filter (fun y => decide (y ∈ second))
      (List.take_prefix n (merge key first second))
    rwa [hpart] at this
  have hlen : (((merge key first second).take n).filter (fun y => y ∈ second)).length ≤ n :=
    (List.length_filter_le _ _).trans (List.length_take_le n _)
  have hmem : x ∈ ((merge key first second).take n).filter (fun y => y ∈ second) :=
    List.mem_filter.2 ⟨h, by simpa using hx⟩
  exact (List.prefix_take_iff.2 ⟨hbegins, hlen⟩).mem hmem

variable (hsecond : second.Pairwise fun a b => key a ≤ key b) (hsize : 0 < size)

include hsecond hsize

theorem windowPage_eq (hearly : ∀ y ∈ first, first.idxOf y / size ≤ (merge key first second).idxOf y / size)
    (page : ℕ) : windowPage key first second size page = pageOf size page (merge key first second) := by
  rw [windowPage, sortedBy_windowRows hnodup hkey]
  refine pageOf_filter fun y hy => decide_eq_true ?_
  have hmem := List.mem_of_mem_take hy
  rcases mem_merge.1 hmem with hfirst | hsnd
  · exact List.mem_append_left _ (mem_take_of_div_le hsize hfirst
      ((hearly y hfirst).trans (div_le_of_mem_take hsize hmem hy)))
  · exact List.mem_append_right _ (mem_take_second hnodup hkey hsecond hsnd hy)

omit hsecond in
theorem not_mem_windowPage (hx : x ∈ first)
    (hlate : (merge key first second).idxOf x / size < first.idxOf x / size) (page : ℕ) :
    x ∉ windowPage key first second size page := by
  rw [windowPage, sortedBy_windowRows hnodup hkey, pageOf]
  intro hmem
  have hdrop := List.mem_of_mem_take hmem
  have hwindow : x ∈ windowRows first second ((page + 1) * size) := by
    simpa using (List.mem_filter.1 (List.mem_of_mem_drop hdrop)).2
  have hnot : x ∉ second := fun hsnd => (List.nodup_append'.1 hnodup).2.2 hx hsnd
  have htake := (List.mem_append.1 hwindow).resolve_right fun h => hnot (List.mem_of_mem_take h)
  have hpage := div_le_of_mem_take hsize hx htake
  have hbehind := mem_drop_of_mem_drop_filter hdrop
  have hfront : x ∈ (merge key first second).take (page * size) := by
    rw [List.mem_take_iff_idxOf_lt (mem_merge.2 (Or.inl hx)), ← Nat.div_lt_iff_lt_mul hsize]
    omega
  exact List.disjoint_take_drop (nodup_merge hnodup) le_rfl hfront hbehind

/-- **The pages list each row once** exactly when no row is on a later page of the first query than of the
merge. -/
theorem flatMap_windowPage_perm_iff {n : ℕ} (hn : (first ++ second).length ≤ n * size) :
    ((List.range n).flatMap fun page => windowPage key first second size page).Perm (first ++ second) ↔
      ∀ x ∈ first, first.idxOf x / size ≤ (merge key first second).idxOf x / size := by
  constructor
  · intro hperm x hx
    by_contra hlate
    have hmem := hperm.mem_iff.2 (List.mem_append_left _ hx)
    obtain ⟨page, -, hpage⟩ := List.mem_flatMap.1 hmem
    exact not_mem_windowPage hnodup hkey hsize hx (not_le.1 hlate) page hpage
  · intro hearly
    have hpages : ((List.range n).flatMap fun page => windowPage key first second size page) =
        merge key first second := by
      simp only [windowPage_eq hnodup hkey hsecond hsize hearly]
      exact flatMap_pageOf_of_le (by rw [merge, length_sortedBy]; exact hn)
    rw [hpages]
    exact perm_sortedBy key _

end Merge

end Sys
