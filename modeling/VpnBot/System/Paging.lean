import Mathlib.Data.List.Sort

/-!
# The first page of a sorted list

A query that sorts by a key and stops after `n` rows.  On keys without repetition a row is on the page
exactly when fewer than `n` rows come before it (`mem_firstBy_iff`): positions become counts, which a
change of some rows moves in a simple way.

A job that works on the first page again and again leaves some rows of it, the stuck ones, where they are.
Behind fewer than `n` stuck rows a row gets on the page (`served_iff`), since a page without it has a row
that moves (`exists_moving`).
-/

namespace Sys

variable {α κ : Type} [LinearOrder κ] {key : α → κ} {n : ℕ} {l : List α} {x : α}

/-- The first `n` elements in the order of their keys. -/
def firstBy (key : α → κ) (n : ℕ) (l : List α) : List α :=
  (l.insertionSort fun a b => key a ≤ key b).take n

theorem mem_of_mem_firstBy (h : x ∈ firstBy key n l) : x ∈ l :=
  (List.mem_insertionSort _).1 (List.mem_of_mem_take h)

theorem nodup_map_firstBy {β : Type} {f : α → β} (hnodup : (l.map f).Nodup) :
    ((firstBy key n l).map f).Nodup := by
  have hsorted := ((List.perm_insertionSort (fun a b => key a ≤ key b) l).map f).nodup_iff.2 hnodup
  exact hsorted.sublist ((List.take_sublist n _).map f)

/-- In a strictly sorted list a position is the number of the elements before it. -/
theorem mem_take_iff (h : l.Pairwise fun a b => key a < key b) :
    x ∈ l.take n ↔ x ∈ l ∧ l.countP (fun y => key y < key x) < n := by
  induction l generalizing n with
  | nil => simp
  | cons a l ih =>
    obtain ⟨hfirst, hrest⟩ := List.pairwise_cons.1 h
    cases n with
    | zero => simp
    | succ n =>
      rw [List.take_succ_cons, List.mem_cons, List.mem_cons, ih hrest]
      constructor
      · rintro (rfl | ⟨hmem, hcount⟩)
        · have hzero : l.countP (fun y => key y < key x) = 0 := by
            rw [List.countP_eq_zero]
            intro y hy
            simpa using (hfirst y hy).le
          refine ⟨Or.inl rfl, ?_⟩
          rw [List.countP_cons_of_neg (by simp), hzero]
          exact Nat.succ_pos n
        · refine ⟨Or.inr hmem, ?_⟩
          rw [List.countP_cons_of_pos (by simpa using hfirst x hmem)]
          omega
      · rintro ⟨rfl | hmem, hcount⟩
        · exact Or.inl rfl
        · rw [List.countP_cons_of_pos (by simpa using hfirst x hmem)] at hcount
          exact Or.inr ⟨hmem, by omega⟩

theorem pairwise_lt_insertionSort (hnodup : (l.map key).Nodup) :
    (l.insertionSort fun a b => key a ≤ key b).Pairwise fun a b => key a < key b := by
  have hsorted := List.pairwise_insertionSort (fun a b => key a ≤ key b) l
  have hne : (l.insertionSort fun a b => key a ≤ key b).Pairwise fun a b => key a ≠ key b :=
    List.pairwise_map.1 (((List.perm_insertionSort _ l).map key).nodup_iff.2 hnodup)
  exact hsorted.imp₂ (fun _ _ hle hne => lt_of_le_of_ne hle hne) hne

/-- **A row is on the first page when fewer than `n` rows come before it.** -/
theorem mem_firstBy_iff (hnodup : (l.map key).Nodup) :
    x ∈ firstBy key n l ↔ x ∈ l ∧ l.countP (fun y => key y < key x) < n := by
  unfold firstBy
  rw [mem_take_iff (pairwise_lt_insertionSort hnodup), List.mem_insertionSort,
    (List.perm_insertionSort _ l).countP_eq]

/-- A row behind a page stands behind `n` rows of the page. -/
theorem le_countP_of_not_mem_firstBy (hnodup : (l.map key).Nodup) (hx : x ∈ l)
    (hpage : x ∉ firstBy key n l) {p : α → Bool} (hp : ∀ y ∈ firstBy key n l, p y = true) :
    n ≤ l.countP fun y => p y && key y < key x := by
  have hsorted := pairwise_lt_insertionSort hnodup
  have hperm := List.perm_insertionSort (fun a b => key a ≤ key b) l
  unfold firstBy at hpage hp
  rw [← hperm.countP_eq]
  rw [← hperm.mem_iff] at hx
  generalize l.insertionSort (fun a b => key a ≤ key b) = sorted at *
  rw [← List.take_append_drop n sorted] at hx hsorted
  have hdrop : x ∈ sorted.drop n := (List.mem_append.1 hx).resolve_left hpage
  have hbefore := (List.pairwise_append.1 hsorted).2.2
  have hlength : (sorted.take n).length = n := by
    rw [List.length_take]
    have hpos := List.length_pos_of_mem hdrop
    rw [List.length_drop] at hpos
    omega
  calc n = (sorted.take n).countP fun y => p y && key y < key x := by
        rw [List.countP_eq_length.2, hlength]
        intro y hy
        simp [hp y hy, hbefore y hy x hdrop]
    _ ≤ sorted.countP fun y => p y && key y < key x := (List.take_sublist n sorted).countP_le

/-- A page with more rows before a place than it has room for has one that is not stuck, when fewer than
`n` stuck rows are before the place. -/
theorem exists_moving {stuck : α → Bool} {place : κ} (hnodup : (l.map key).Nodup)
    (hahead : n ≤ l.countP fun y => key y < place)
    (hstuck : (l.countP fun y => stuck y && key y < place) < n) :
    ∃ y ∈ firstBy key n l, stuck y = false ∧ key y < place := by
  have hbefore : ∀ y ∈ firstBy key n l, key y < place := by
    intro y hy
    by_contra hle
    have hlt := ((mem_firstBy_iff hnodup).1 hy).2
    refine absurd (hahead.trans (List.countP_mono_left fun z _ hz => ?_)) (not_le.2 hlt)
    simp only [decide_eq_true_eq] at hz ⊢
    exact lt_of_lt_of_le hz (not_lt.1 hle)
  by_contra hall
  push Not at hall
  have hperm := List.perm_insertionSort (fun a b => key a ≤ key b) l
  have hlength : (firstBy key n l).length = n := by
    rw [firstBy, List.length_take, hperm.length_eq]
    exact min_eq_left (hahead.trans List.countP_le_length)
  have hcount : n = (firstBy key n l).countP fun y => stuck y && key y < place := by
    rw [List.countP_eq_length.2, hlength]
    intro y hy
    cases hy' : stuck y with
    | false => exact absurd (hbefore y hy) (not_lt.2 (hall y hy hy'))
    | true => simp [hbefore y hy]
  have hle := (List.take_sublist n (l.insertionSort fun a b => key a ≤ key b)).countP_le
    (p := fun y => stuck y && key y < place)
  rw [hperm.countP_eq] at hle
  exact absurd hstuck (not_lt.2 (hcount.le.trans hle))

theorem countP_lt_of_mem {p q : α → Bool} (hle : ∀ y ∈ l, p y = true → q y = true) (hx : x ∈ l)
    (hq : q x = true) (hp : p x = false) : l.countP p < l.countP q := by
  induction l with
  | nil => cases hx
  | cons a l ih =>
    have hmono := List.countP_mono_left fun y hy => hle y (List.mem_cons_of_mem a hy)
    rcases List.mem_cons.1 hx with rfl | hx
    · rw [List.countP_cons_of_neg (by simp [hp]), List.countP_cons_of_pos hq]
      omega
    · have hlt := ih (fun y hy => hle y (List.mem_cons_of_mem a hy)) hx
      rw [List.countP_cons, List.countP_cons]
      have hhead := hle a List.mem_cons_self
      split <;> split <;> first | omega | simp_all

/-- **A row is served in the end exactly when fewer than a page of the rows before it are stuck at some
time.**  `ahead j` is how many rows wait before it in the cycle `j`, and `stuck j` how many of them never
move. -/
theorem served_iff {ahead stuck : ℕ → ℕ} (hle : ∀ j, stuck j ≤ ahead j)
    (hstuck : ∀ j, stuck (j + 1) ≤ stuck j)
    (hstep : ∀ j, n ≤ ahead j → stuck j < n → ahead (j + 1) < ahead j) :
    (∃ j, ahead j < n) ↔ ∃ j, stuck j < n := by
  constructor
  · rintro ⟨j, hj⟩
    exact ⟨j, (hle j).trans_lt hj⟩
  · rintro ⟨j, hj⟩
    by_contra hnever
    push Not at hnever
    have hstays : ∀ i, stuck (j + i) < n := by
      intro i
      induction i with
      | zero => exact hj
      | succ i ih => exact (hstuck (j + i)).trans_lt ih
    have hfalls : ∀ i, ahead (j + i) + i ≤ ahead j := by
      intro i
      induction i with
      | zero => exact le_rfl
      | succ i ih =>
        have := hstep (j + i) (hnever (j + i)) (hstays i)
        show ahead (j + i + 1) + (i + 1) ≤ ahead j
        omega
    have := hfalls (ahead j + 1)
    omega

end Sys
