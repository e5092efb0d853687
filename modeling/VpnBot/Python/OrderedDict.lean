import Mathlib.Data.Nat.Basic
import Mathlib.Order.Basic
import VpnBot.Python.Dict

/-!
# The order of a dictionary

What `collections.OrderedDict` of the Python language adds to a dictionary: `move_to_end`, and
`popitem(last=False)` in a loop that keeps at most `n` entries (`trim`).  `Within j d k` says that at most
`j` entries come after the one of `k`; an entry with fewer than `n` entries after it is not trimmed.
-/

namespace Py

namespace Dict

variable {κ ν : Type}

/-- The first entry goes while there are more than `n`. -/
def trimItems (n : ℕ) : List (κ × ν) → List (κ × ν)
  | [] => []
  | p :: l => if n < (p :: l).length then trimItems n l else p :: l

theorem trimItems_suffix (n : ℕ) (l : List (κ × ν)) : trimItems n l <:+ l := by
  induction l with
  | nil => exact List.suffix_rfl
  | cons p l ih =>
    rw [trimItems]
    split_ifs
    · exact ih.trans (List.suffix_cons p l)
    · exact List.suffix_rfl

/-- `while len(d) > n: d.popitem(last=False)`. -/
def trim (n : ℕ) (d : Dict κ ν) : Dict κ ν :=
  ⟨trimItems n d.items, d.nodup.sublist ((trimItems_suffix n d.items).sublist.map _)⟩

theorem exists_trimItems {n : ℕ} {before after : List (κ × ν)} {p : κ × ν} (h : after.length < n) :
    ∃ front, trimItems n (before ++ p :: after) = front ++ p :: after := by
  induction before with
  | nil =>
    refine ⟨[], ?_⟩
    rw [List.nil_append, trimItems, if_neg (by rw [List.length_cons]; omega)]
  | cons q before ih =>
    rw [List.cons_append, trimItems]
    split_ifs
    · exact ih
    · exact ⟨q :: before, rfl⟩

/-- At most `j` entries come after the one of the key. -/
def Within (j : ℕ) (d : Dict κ ν) (k : κ) : Prop :=
  ∃ before v after, d.items = before ++ (k, v) :: after ∧ after.length ≤ j

theorem Within.trim {j n : ℕ} {d : Dict κ ν} {k : κ} (h : d.Within j k) (hj : j < n) :
    (d.trim n).Within j k := by
  obtain ⟨before, v, after, hitems, hlen⟩ := h
  obtain ⟨front, hfront⟩ : ∃ front, trimItems n (before ++ (k, v) :: after) = front ++ (k, v) :: after :=
    exists_trimItems (hlen.trans_lt hj)
  exact ⟨front, v, after, by rw [← hfront, ← hitems]; rfl, hlen⟩

section Order

variable [DecidableEq κ] {d : Dict κ ν} {k k' : κ} {v : ν} {j n : ℕ}

/-- `d.move_to_end(k)`. -/
def moveToEnd (d : Dict κ ν) (k : κ) : Dict κ ν :=
  match d.get? k with
  | some v => (d.erase k).set k v
  | none => d

@[simp] theorem get?_moveToEnd (d : Dict κ ν) (k k' : κ) : (d.moveToEnd k).get? k' = d.get? k' := by
  unfold moveToEnd
  cases hget : d.get? k with
  | none => rfl
  | some v =>
    simp only [get?_set, get?_erase]
    split_ifs with hk
    · rw [hk, hget]
    · rfl

theorem Within.isSome (h : d.Within j k) : (d.get? k).isSome := by
  obtain ⟨before, v, after, hitems, -⟩ := h
  rw [get?_eq_some_iff.2 (hitems ▸ List.mem_append_right before List.mem_cons_self)]
  rfl

/-- What is left after trimming is what was there. -/
theorem get?_trim (h : (d.trim n).get? k = some v) : d.get? k = some v :=
  get?_eq_some_iff.2 ((trimItems_suffix n d.items).mem (get?_eq_some_iff.1 h))

theorem get?_trim_of_within (h : d.Within j k) (hj : j < n) : (d.trim n).get? k = d.get? k := by
  obtain ⟨w, hw⟩ := Option.isSome_iff_exists.1 (h.trim hj).isSome
  rw [hw, get?_trim hw]

/-! ### Where the entries are -/

theorem items_set_of_mem (h : k ∈ d.keys) :
    (d.set k v).items = d.items.map fun p => if p.1 = k then (k, v) else p := by
  unfold set
  rw [dif_pos h]

theorem items_set_of_not_mem (h : k ∉ d.keys) : (d.set k v).items = d.items ++ [(k, v)] := by
  unfold set
  rw [dif_neg h]

/-- A key that is not there goes to the end. -/
theorem within_set_new (h : d.get? k = none) : (d.set k v).Within 0 k :=
  ⟨d.items, v, [], items_set_of_not_mem (get?_eq_none_iff.1 h), le_rfl⟩

theorem Within.set_new (h : d.Within j k) (hk' : d.get? k' = none) : (d.set k' v).Within (j + 1) k := by
  obtain ⟨before, w, after, hitems, hlen⟩ := h
  refine ⟨before, w, after ++ [(k', v)], ?_, by simpa using hlen⟩
  rw [items_set_of_not_mem (get?_eq_none_iff.1 hk'), hitems, List.append_assoc, List.cons_append]

/-- A key that is there keeps its place. -/
theorem Within.set_present (h : d.Within j k) {w : ν} (hk' : d.get? k' = some w) :
    (d.set k' v).Within j k := by
  have hmem : k' ∈ d.keys := List.mem_map_of_mem (get?_eq_some_iff.1 hk')
  obtain ⟨before, u, after, hitems, hlen⟩ := h
  refine ⟨before.map fun p => if p.1 = k' then (k', v) else p, if k = k' then v else u,
    after.map fun p => if p.1 = k' then (k', v) else p, ?_, by simpa using hlen⟩
  rw [items_set_of_mem hmem, hitems, List.map_append, List.map_cons]
  by_cases hk : k = k'
  · rw [if_pos hk, if_pos hk, hk]
  · rw [if_neg hk, if_neg hk]

theorem moveToEnd_eq (h : d.get? k = some v) : (d.moveToEnd k).items = (d.erase k).items ++ [(k, v)] := by
  have hnot : k ∉ (d.erase k).keys := get?_eq_none_iff.1 (by rw [get?_erase, if_pos rfl])
  unfold moveToEnd
  rw [h]
  exact items_set_of_not_mem hnot

theorem within_moveToEnd (h : d.get? k = some v) : (d.moveToEnd k).Within 0 k :=
  ⟨(d.erase k).items, v, [], moveToEnd_eq h, le_rfl⟩

theorem Within.moveToEnd (h : d.Within j k) (hne : k ≠ k') (hk' : d.get? k' = some v) :
    (d.moveToEnd k').Within (j + 1) k := by
  obtain ⟨before, w, after, hitems, hlen⟩ := h
  refine ⟨before.filter fun p => p.1 ≠ k', w, (after.filter fun p => p.1 ≠ k') ++ [(k', v)], ?_, ?_⟩
  · have herase : (d.erase k').items = d.items.filter fun p => p.1 ≠ k' := rfl
    rw [moveToEnd_eq hk', herase, hitems, List.filter_append,
      List.filter_cons_of_pos (by simpa using hne), List.append_assoc, List.cons_append]
  · rw [List.length_append, List.length_singleton]
    have := List.length_filter_le (fun p : κ × ν => decide (p.1 ≠ k')) after
    omega

end Order

end Dict

end Py
