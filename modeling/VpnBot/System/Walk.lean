import Mathlib.Data.List.Basic
import Mathlib.Data.Int.ModEq
import Mathlib.Data.List.Nodup
import Mathlib.Tactic.Linarith

/-!
# Walks around a list

`walk l k` is the entry of `l` at the position `k` modulo its length: a walk that goes through `l` again
and again, in both directions of time.  In a list without duplicates two neighbouring positions have
different entries (`walk_succ_ne`), and as many consecutive positions as the list has entries meet each
of them once (`existsUnique_walk_eq`).
-/

namespace Sys

variable {α : Type} {l : List α} {k : ℤ} {x : α}

/-- The entry at a position modulo the length. -/
def walk (l : List α) (k : ℤ) : Option α := l[(k % l.length).toNat]?

theorem toNat_emod_lt (hl : l ≠ []) (k : ℤ) : (k % l.length).toNat < l.length := by
  have hpos : 0 < (l.length : ℤ) := by exact_mod_cast List.length_pos_iff.2 hl
  have hlt := Int.emod_lt_of_pos k hpos
  have hnonneg := Int.emod_nonneg k hpos.ne'
  omega

theorem exists_walk_eq (hl : l ≠ []) (k : ℤ) : ∃ x ∈ l, walk l k = some x :=
  ⟨_, List.getElem_mem (toNat_emod_lt hl k), List.getElem?_eq_getElem _⟩

/-- Two positions of a list without duplicates have the same entry when they are congruent. -/
theorem walk_eq_walk_iff (hl : l ≠ []) (hnodup : l.Nodup) {i j : ℤ} :
    walk l i = walk l j ↔ i % l.length = j % l.length := by
  have hpos : 0 < (l.length : ℤ) := by exact_mod_cast List.length_pos_iff.2 hl
  have hi := Int.emod_nonneg i hpos.ne'
  have hj := Int.emod_nonneg j hpos.ne'
  unfold walk
  rw [List.getElem?_eq_getElem (toNat_emod_lt hl i), List.getElem?_eq_getElem (toNat_emod_lt hl j),
    Option.some.injEq, hnodup.getElem_inj_iff]
  omega

theorem walk_succ_ne (hnodup : l.Nodup) (hl : 2 ≤ l.length) (k : ℤ) : walk l (k + 1) ≠ walk l k := by
  have hne : l ≠ [] := by
    rintro rfl
    simp at hl
  rw [Ne, walk_eq_walk_iff hne hnodup]
  intro h
  have hdvd : (l.length : ℤ) ∣ 1 := by
    simpa using Int.ModEq.dvd (show k ≡ k + 1 [ZMOD l.length] from h.symm)
  have hle := Int.le_of_dvd one_pos hdvd
  omega

/-- Every entry is met once in as many consecutive positions as there are entries. -/
theorem existsUnique_walk_eq (hnodup : l.Nodup) (hx : x ∈ l) (first : ℤ) :
    ∃! k, (first ≤ k ∧ k < first + l.length) ∧ walk l k = some x := by
  have hne : l ≠ [] := List.ne_nil_of_mem hx
  have hpos : 0 < (l.length : ℤ) := by exact_mod_cast List.length_pos_iff.2 hne
  obtain ⟨i, hi, rfl⟩ := List.getElem_of_mem hx
  have hat : walk l i = some l[i] := by
    unfold walk
    rw [Int.emod_eq_of_lt (by omega) (by exact_mod_cast hi), Int.toNat_natCast,
      List.getElem?_eq_getElem hi]
  have hshift := Int.emod_nonneg (i - first) hpos.ne'
  have hshort := Int.emod_lt_of_pos (i - first) hpos
  refine ⟨first + (i - first) % l.length, ⟨⟨by omega, by omega⟩, ?_⟩, ?_⟩
  · rw [← hat, walk_eq_walk_iff hne hnodup, Int.add_emod_emod, add_sub_cancel]
  · rintro k ⟨⟨hle, hlt⟩, hk⟩
    rw [← hat, walk_eq_walk_iff hne hnodup] at hk
    have hmod : (k - first) % l.length = (i - first) % l.length := Int.ModEq.sub_right first hk
    rw [Int.emod_eq_of_lt (by omega) (by omega)] at hmod
    omega

end Sys
