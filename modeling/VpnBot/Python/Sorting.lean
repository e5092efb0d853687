import Mathlib.Data.List.Dedup
import Mathlib.Data.List.Sort
import Mathlib.Order.Lex

/-!
# Sorting by a key

`sorted(l, key=key)` of the Python language, also with `reverse=True`, and the keys of `dict.fromkeys(l)`.
Both sorts are stable.  Where the key tells the elements apart the result depends on the elements alone
(`sortedBy_eq_of_perm`), and it is the only sorted arrangement of them (`eq_sortedBy`).
-/

namespace Py

variable {α κ : Type} [LinearOrder κ] {key : α → κ} {l m : List α}

/-- `sorted(l, key=key)`. -/
def sortedBy (key : α → κ) (l : List α) : List α := l.insertionSort fun a b => key a ≤ key b

theorem perm_sortedBy (key : α → κ) (l : List α) : (sortedBy key l).Perm l := List.perm_insertionSort _ l

@[simp] theorem mem_sortedBy {a : α} : a ∈ sortedBy key l ↔ a ∈ l := (perm_sortedBy key l).mem_iff

@[simp] theorem length_sortedBy (key : α → κ) (l : List α) : (sortedBy key l).length = l.length :=
  (perm_sortedBy key l).length_eq

theorem pairwise_sortedBy (key : α → κ) (l : List α) :
    (sortedBy key l).Pairwise fun a b => key a ≤ key b := by
  have : IsTrans α fun a b => key a ≤ key b := ⟨fun _ _ _ => le_trans⟩
  have : Std.Total fun a b : α => key a ≤ key b := ⟨fun a b => le_total (key a) (key b)⟩
  exact List.pairwise_insertionSort _ l

theorem eq_sortedBy (hkey : ∀ a ∈ l, ∀ b ∈ l, key a = key b → a = b) (hperm : m.Perm l)
    (hsorted : m.Pairwise fun a b => key a ≤ key b) : m = sortedBy key l := by
  refine (hperm.trans (perm_sortedBy key l).symm).eq_of_pairwise ?_ hsorted (pairwise_sortedBy key l)
  intro a b ha hb hab hba
  exact hkey a (hperm.mem_iff.1 ha) b (mem_sortedBy.1 hb) (le_antisymm hab hba)

/-- **The order that the elements came in does not matter where the key tells them apart.** -/
theorem sortedBy_eq_of_perm (hkey : ∀ a ∈ l, ∀ b ∈ l, key a = key b → a = b) (hperm : m.Perm l) :
    sortedBy key m = sortedBy key l :=
  eq_sortedBy hkey ((perm_sortedBy key m).trans hperm) (pairwise_sortedBy key m)

/-- `sorted(l, key=key, reverse=True)`. -/
def sortedByDesc (key : α → κ) (l : List α) : List α := sortedBy (fun a => OrderDual.toDual (key a)) l

theorem perm_sortedByDesc (key : α → κ) (l : List α) : (sortedByDesc key l).Perm l := perm_sortedBy _ l

theorem pairwise_sortedByDesc (key : α → κ) (l : List α) :
    (sortedByDesc key l).Pairwise fun a b => key b ≤ key a :=
  pairwise_sortedBy (fun a => OrderDual.toDual (key a)) l

/-- The keys of `dict.fromkeys(l)`: each element at its first place. -/
def fromKeys [DecidableEq α] (l : List α) : List α := l.reverse.dedup.reverse

@[simp] theorem mem_fromKeys [DecidableEq α] {a : α} : a ∈ fromKeys l ↔ a ∈ l := by simp [fromKeys]

theorem nodup_fromKeys [DecidableEq α] (l : List α) : (fromKeys l).Nodup := by
  rw [fromKeys, List.nodup_reverse]
  exact List.nodup_dedup _

theorem perm_fromKeys [DecidableEq α] (h : ∀ a, a ∈ m ↔ a ∈ l) : (fromKeys m).Perm (fromKeys l) := by
  rw [List.perm_ext_iff_of_nodup (nodup_fromKeys m) (nodup_fromKeys l)]
  intro a
  rw [mem_fromKeys, mem_fromKeys, h]

end Py
