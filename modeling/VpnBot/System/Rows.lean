import Mathlib.Data.List.Nodup

/-!
# Tables

A table with an autoincrement key has its rows in the order of their keys, and the key of the next row, which no row
has had.  It carries the proof of both, so that a row is determined by its key (`find?_eq_some_iff`) and a query
`ORDER BY key` returns the rows as they stand.

Behind them are lists of rows in the order of a key, as a query returns them: a page holds every row that is wanted up
to its last one (`mem_pageAfter_of_le`), and an empty one says that none is left (`le_of_pageAfter_eq_nil`).
-/

namespace Sys

/-- The largest INTEGER of SQLite, `2 ^ 63 - 1`. -/
def maxInteger : ℕ := 9223372036854775807

/-- The rows of a table with an autoincrement key, in the order of the key. -/
structure Rows (ρ : Type) (key : ρ → ℕ) where
  rows : List ρ
  next : ℕ
  sorted : rows.Pairwise fun a b => key a < key b
  below : ∀ row ∈ rows, key row < next

namespace Rows

variable {ρ : Type} {key : ρ → ℕ}

def empty : Rows ρ key := ⟨[], 1, .nil, nofun⟩

/-- `SELECT * … WHERE key = ?`. -/
def find? (t : Rows ρ key) (i : ℕ) : Option ρ := t.rows.find? fun row => key row = i

/-- `INSERT`. -/
def insert (t : Rows ρ key) (row : ρ) (hrow : key row = t.next) : Rows ρ key where
  rows := t.rows ++ [row]
  next := t.next + 1
  sorted := by
    rw [List.pairwise_append]
    refine ⟨t.sorted, List.pairwise_singleton _ _, fun a ha b hb => ?_⟩
    rw [List.mem_singleton.1 hb, hrow]
    exact t.below a ha
  below := by
    intro r hr
    rcases List.mem_append.1 hr with hr | hr
    · exact Nat.lt_succ_of_lt (t.below r hr)
    · rw [List.mem_singleton.1 hr, hrow]
      exact Nat.lt_succ_self _

/-- `UPDATE … WHERE key = ?`. -/
def update (t : Rows ρ key) (i : ℕ) (f : ρ → ρ) (hf : ∀ row, key (f row) = key row) : Rows ρ key where
  rows := t.rows.map fun row => if key row = i then f row else row
  next := t.next
  sorted := by
    have hkey : ∀ row, key (if key row = i then f row else row) = key row := fun row => by
      split_ifs
      · exact hf row
      · rfl
    rw [List.pairwise_map]
    exact t.sorted.imp fun h => by rwa [hkey, hkey]
  below := by
    intro r hr
    obtain ⟨row, hrow, rfl⟩ := List.mem_map.1 hr
    have hlt := t.below row hrow
    split_ifs
    · rw [hf]
      exact hlt
    · exact hlt

/-- `DELETE … WHERE key = ?`. -/
def delete (t : Rows ρ key) (i : ℕ) : Rows ρ key where
  rows := t.rows.filter fun row => key row ≠ i
  next := t.next
  sorted := t.sorted.filter _
  below r hr := t.below r (List.mem_of_mem_filter hr)

variable {t : Rows ρ key} {i j : ℕ} {row row' : ρ} {f : ρ → ρ}

theorem eq_of_key_eq (hrow : row ∈ t.rows) (hrow' : row' ∈ t.rows) (hkey : key row = key row') :
    row = row' := by
  have hnodup : (t.rows.map key).Nodup :=
    List.pairwise_map.2 (t.sorted.imp fun h => Nat.ne_of_lt h)
  exact List.inj_on_of_nodup_map hnodup hrow hrow' hkey

theorem find?_eq_some_iff : t.find? i = some row ↔ row ∈ t.rows ∧ key row = i := by
  unfold find?
  constructor
  · intro h
    exact ⟨List.mem_of_find?_eq_some h, by simpa using List.find?_some h⟩
  · rintro ⟨hrow, rfl⟩
    cases h : t.rows.find? fun r => key r = key row with
    | none => exact absurd (List.find?_eq_none.1 h row hrow) (by simp)
    | some found =>
      have hkey : key found = key row := by simpa using List.find?_some h
      rw [eq_of_key_eq (List.mem_of_find?_eq_some h) hrow hkey]

theorem find?_eq_none_iff : t.find? i = none ↔ ∀ row ∈ t.rows, key row ≠ i := by
  simp [find?]

theorem find?_next : t.find? t.next = none :=
  find?_eq_none_iff.2 fun row hrow => Nat.ne_of_lt (t.below row hrow)

theorem mem_insert (hrow : key row = t.next) :
    row' ∈ (t.insert row hrow).rows ↔ row' ∈ t.rows ∨ row' = row := by
  simp [insert]

theorem find?_insert_self (hrow : key row = t.next) : (t.insert row hrow).find? t.next = some row :=
  find?_eq_some_iff.2 ⟨(mem_insert hrow).2 (Or.inr rfl), hrow⟩

theorem find?_insert_of_ne (hrow : key row = t.next) (h : i ≠ t.next) :
    (t.insert row hrow).find? i = t.find? i := by
  ext row'
  rw [find?_eq_some_iff, find?_eq_some_iff, mem_insert]
  refine and_congr_left fun hkey => or_iff_left ?_
  rintro rfl
  exact h (hkey.symm.trans hrow)

theorem find?_insert_of_some (hrow : key row = t.next) (h : t.find? i = some row') :
    (t.insert row hrow).find? i = some row' := by
  rw [find?_insert_of_ne hrow ?_]
  · exact h
  · rintro rfl
    rw [find?_next] at h
    cases h

theorem mem_delete : row ∈ (t.delete i).rows ↔ row ∈ t.rows ∧ key row ≠ i := by
  simp [delete]

theorem mem_update (hf : ∀ row, key (f row) = key row) : row' ∈ (t.update i f hf).rows ↔
    (row' ∈ t.rows ∧ key row' ≠ i) ∨ ∃ row ∈ t.rows, key row = i ∧ row' = f row := by
  unfold update
  rw [List.mem_map]
  constructor
  · rintro ⟨row, hrow, rfl⟩
    by_cases hkey : key row = i
    · exact Or.inr ⟨row, hrow, hkey, if_pos hkey⟩
    · rw [if_neg hkey]
      exact Or.inl ⟨hrow, hkey⟩
  · rintro (⟨hrow, hkey⟩ | ⟨row, hrow, hkey, rfl⟩)
    · exact ⟨row', hrow, if_neg hkey⟩
    · exact ⟨row, hrow, if_pos hkey⟩

@[simp] theorem find?_update_self (hf : ∀ row, key (f row) = key row) :
    (t.update i f hf).find? i = (t.find? i).map f := by
  cases h : t.find? i with
  | none =>
    rw [find?_eq_none_iff] at h
    refine find?_eq_none_iff.2 fun row hrow => ?_
    rcases (mem_update hf).1 hrow with ⟨hmem, hne⟩ | ⟨old, hold, hkey, -⟩
    · exact hne
    · exact absurd hkey (h old hold)
  | some row =>
    obtain ⟨hrow, hkey⟩ := find?_eq_some_iff.1 h
    exact find?_eq_some_iff.2 ⟨(mem_update hf).2 (Or.inr ⟨row, hrow, hkey, rfl⟩), (hf row).trans hkey⟩

theorem find?_update_of_ne (hf : ∀ row, key (f row) = key row) (h : j ≠ i) :
    (t.update i f hf).find? j = t.find? j := by
  ext row
  rw [find?_eq_some_iff, find?_eq_some_iff, mem_update hf]
  constructor
  · rintro ⟨⟨hrow, -⟩ | ⟨old, -, hold, rfl⟩, hkey⟩
    · exact ⟨hrow, hkey⟩
    · exact absurd (hkey.symm.trans ((hf old).trans hold)) h
  · rintro ⟨hrow, rfl⟩
    exact ⟨Or.inl ⟨hrow, h⟩, rfl⟩

@[simp] theorem find?_delete_self : (t.delete i).find? i = none :=
  find?_eq_none_iff.2 fun _ hrow => (mem_delete.1 hrow).2

theorem find?_delete_of_ne (h : j ≠ i) : (t.delete i).find? j = t.find? j := by
  ext row
  rw [find?_eq_some_iff, find?_eq_some_iff, mem_delete]
  constructor
  · rintro ⟨⟨hrow, -⟩, hkey⟩
    exact ⟨hrow, hkey⟩
  · rintro ⟨hrow, rfl⟩
    exact ⟨⟨hrow, h⟩, rfl⟩

theorem countP_update_le (hf : ∀ row, key (f row) = key row) {p : ρ → Bool}
    (h : ∀ row ∈ t.rows, key row = i → p (f row) = true → p row = true) :
    (t.update i f hf).rows.countP p ≤ t.rows.countP p := by
  unfold update
  rw [List.countP_map]
  refine List.countP_mono_left fun row hrow hp => ?_
  rw [Function.comp_apply] at hp
  by_cases hkey : key row = i
  · rw [if_pos hkey] at hp
    exact h row hrow hkey hp
  · rw [if_neg hkey] at hp
    exact hp

theorem ext_rows {t' : Rows ρ key} (hrows : t.rows = t'.rows) (hnext : t.next = t'.next) : t = t' := by
  cases t
  cases t'
  cases hrows
  cases hnext
  rfl

/-- Some rows of a page are updated, one after the other. -/
def sweep (t : Rows ρ key) (moves : ρ → Bool) (f : ρ → ρ) (hf : ∀ row, key (f row) = key row)
    (page : List ρ) : Rows ρ key :=
  page.foldl (fun t row => if moves row then t.update (key row) f hf else t) t

theorem sweep_cons (hf : ∀ row, key (f row) = key row) (moves : ρ → Bool) (page : List ρ) :
    t.sweep moves f hf (row :: page) =
      (if moves row then t.update (key row) f hf else t).sweep moves f hf page := rfl

@[simp] theorem sweep_next (hf : ∀ row, key (f row) = key row) (moves : ρ → Bool) (page : List ρ) :
    (t.sweep moves f hf page).next = t.next := by
  induction page generalizing t with
  | nil => rfl
  | cons row page ih =>
    rw [sweep_cons, ih]
    split <;> rfl

theorem rows_sweep [DecidableEq ρ] (hf : ∀ row, key (f row) = key row) (moves : ρ → Bool)
    {page : List ρ} (hnodup : (page.map key).Nodup) (hmem : ∀ row ∈ page, row ∈ t.rows) :
    (t.sweep moves f hf page).rows = t.rows.map fun row => if row ∈ page ∧ moves row then f row else row := by
  induction page generalizing t with
  | nil => simp [sweep]
  | cons a page ih =>
    obtain ⟨hnew, hnodup⟩ := List.nodup_cons.1 hnodup
    have hne : ∀ row ∈ page, key row ≠ key a := fun row hrow hkey =>
      hnew (List.mem_map.2 ⟨row, hrow, hkey⟩)
    have ha := hmem a List.mem_cons_self
    have hmem' : ∀ row ∈ page, row ∈ t.rows := fun row hrow => hmem row (List.mem_cons_of_mem a hrow)
    rw [sweep_cons]
    split
    · rename_i hmoves
      rw [ih hnodup fun row hrow => (mem_update hf).2 (Or.inl ⟨hmem' row hrow, hne row hrow⟩)]
      show ((t.rows.map _).map _) = _
      rw [List.map_map]
      refine List.map_congr_left fun row hrow => ?_
      rw [Function.comp_apply]
      by_cases hkey : key row = key a
      · obtain rfl := eq_of_key_eq hrow ha hkey
        have hgone : ¬ (f row ∈ page ∧ moves (f row) = true) := fun h => hne (f row) h.1 (hf row)
        rw [if_pos rfl, if_neg hgone, if_pos ⟨List.mem_cons_self, hmoves⟩]
      · have hiff : row ∈ a :: page ↔ row ∈ page := by
          rw [List.mem_cons]
          exact or_iff_right fun h => hkey (congrArg key h)
        simp only [if_neg hkey, hiff]
    · rename_i hstays
      rw [ih hnodup hmem']
      refine List.map_congr_left fun row _ => ?_
      by_cases hrow : row = a
      · subst hrow
        rw [if_neg fun h => hstays h.2, if_neg fun h => hstays h.2]
      · simp only [List.mem_cons, or_iff_right hrow]

theorem eq_of_mem_iff {l l' : List ρ} (h : l.Pairwise fun a b => key a < key b)
    (h' : l'.Pairwise fun a b => key a < key b) (hmem : ∀ row, row ∈ l ↔ row ∈ l') : l = l' := by
  have hnodup : ∀ {l : List ρ}, (l.Pairwise fun a b => key a < key b) → l.Nodup := by
    refine fun h => h.imp ?_
    rintro a b hlt rfl
    exact Nat.lt_irrefl _ hlt
  refine List.Perm.eq_of_pairwise (fun a b _ _ hab hba => absurd hab (Nat.lt_asymm hba)) h h' ?_
  exact (List.perm_ext_iff_of_nodup (hnodup h) (hnodup h')).2 hmem

/-! ### Pages behind a key -/

/-- A page of the rows with `p` behind a key. -/
def page (t : Rows ρ key) (p : ρ → Bool) (n after : ℕ) : List ρ :=
  (t.rows.filter fun row => p row && after < key row).take n

/-- Page after page, each behind the last row of the one before, until one is empty. -/
def pages (t : Rows ρ key) (p : ρ → Bool) (n : ℕ) : ℕ → ℕ → List ρ
  | 0, _ => []
  | rounds + 1, after =>
    match (t.page p n after).getLast? with
    | none => []
    | some last => t.page p n after ++ t.pages p n rounds (key last)

theorem drop_page {p : ρ → Bool} {n after : ℕ} {last : ρ} (hlast : (t.page p n after).getLast? = some last) :
    (t.rows.filter fun row => p row && after < key row).drop n =
      t.rows.filter fun row => p row && key last < key row := by
  have hmem := List.mem_of_getLast? hlast
  have hafter : after < key last := by
    have hfilter := (List.mem_filter.1 (List.mem_of_mem_take hmem)).2
    simp only [Bool.and_eq_true, decide_eq_true_eq] at hfilter
    exact hfilter.2
  have hsorted : (t.rows.filter fun row => p row && after < key row).Pairwise fun a b => key a < key b :=
    t.sorted.filter _
  have hsplit := List.take_append_drop n (t.rows.filter fun row => p row && after < key row)
  rw [← hsplit, List.pairwise_append] at hsorted
  obtain ⟨hpage, -, hbehind⟩ := hsorted
  -- the rows of the page are not behind its last row
  have hfront : ((t.rows.filter fun row => p row && after < key row).take n).filter (fun row => key last < key row) =
      [] := by
    rw [List.filter_eq_nil_iff]
    intro row hrow
    rw [page] at hlast
    obtain ⟨front, hfront⟩ := List.getLast?_eq_some_iff.1 hlast
    rw [hfront] at hrow hpage
    rcases List.mem_append.1 hrow with hrow | hrow
    · have hlt := (List.pairwise_append.1 hpage).2.2 row hrow last List.mem_cons_self
      simpa using Nat.le_of_lt hlt
    · rw [List.mem_singleton.1 hrow]
      simp
  calc (t.rows.filter fun row => p row && after < key row).drop n
      = ((t.rows.filter fun row => p row && after < key row).drop n).filter fun row => key last < key row := by
        refine (List.filter_eq_self.2 fun row hrow => ?_).symm
        exact decide_eq_true (hbehind last hmem row hrow)
    _ = (t.rows.filter fun row => p row && after < key row).filter fun row => key last < key row := by
        conv_rhs => rw [← hsplit, List.filter_append, hfront, List.nil_append]
    _ = t.rows.filter fun row => p row && key last < key row := by
        rw [List.filter_filter]
        refine List.filter_congr fun row _ => ?_
        by_cases hlt : key last < key row
        · simp [hlt, Nat.lt_trans hafter hlt]
        · simp [hlt]

/-- **The pages together are the rows behind the first key**, when there are rounds enough. -/
theorem pages_eq {p : ρ → Bool} {n : ℕ} (hn : 0 < n) {rounds after : ℕ} (hrounds : t.next ≤ after + rounds) :
    t.pages p n rounds after = t.rows.filter fun row => p row && after < key row := by
  induction rounds generalizing after with
  | zero =>
    refine (List.filter_eq_nil_iff.2 fun row hrow => ?_).symm
    have hbelow := t.below row hrow
    have hnot : ¬ after < key row := by omega
    simp [hnot]
  | succ rounds ih =>
    unfold pages
    cases hlast : (t.page p n after).getLast? with
    | none =>
      have hnil := List.getLast?_eq_none_iff.1 hlast
      rw [page, List.take_eq_nil_iff] at hnil
      exact (hnil.resolve_left (Nat.ne_of_gt hn)).symm
    | some last =>
      have hmem := (List.mem_filter.1 (List.mem_of_mem_take (List.mem_of_getLast? hlast))).2
      simp only [Bool.and_eq_true, decide_eq_true_eq] at hmem
      dsimp only
      rw [ih (by omega), ← drop_page hlast]
      exact List.take_append_drop n _

end Rows

/-! ### Lists of rows -/

section Lists

variable {ρ : Type} {k : ρ → ℕ} {p : ρ → Bool} {f : ρ → ρ} {i n after : ℕ} {rows : List ρ} {row : ρ}

/-- The row with the key is changed. -/
def updateRow (k : ρ → ℕ) (i : ℕ) (f : ρ → ρ) (rows : List ρ) : List ρ :=
  rows.map fun row => if k row = i then f row else row

/-- The first `n` rows that are wanted after a key. -/
def pageAfter (k : ρ → ℕ) (p : ρ → Bool) (n after : ℕ) (rows : List ρ) : List ρ :=
  (rows.filter fun row => p row && decide (after < k row)).take n

theorem mem_updateRow_of_ne (hrow : row ∈ rows) (hne : k row ≠ i) : row ∈ updateRow k i f rows :=
  List.mem_map.2 ⟨row, hrow, if_neg hne⟩

theorem mem_updateRow_self (hrow : row ∈ rows) : f row ∈ updateRow k (k row) f rows :=
  List.mem_map.2 ⟨row, hrow, if_pos rfl⟩

theorem exists_of_mem_updateRow (h : row ∈ updateRow k i f rows) :
    ∃ old ∈ rows, k old ≠ i ∧ row = old ∨ k old = i ∧ row = f old := by
  obtain ⟨old, hold, rfl⟩ := List.mem_map.1 h
  by_cases hkey : k old = i
  · exact ⟨old, hold, Or.inr ⟨hkey, if_pos hkey⟩⟩
  · exact ⟨old, hold, Or.inl ⟨hkey, if_neg hkey⟩⟩

theorem keys_updateRow (hkey : ∀ row, k (f row) = k row) :
    (updateRow k i f rows).map k = rows.map k := by
  unfold updateRow
  rw [List.map_map]
  refine List.map_congr_left fun row _ => ?_
  show k (if k row = i then f row else row) = k row
  split_ifs
  · exact hkey row
  · rfl

theorem mem_of_mem_pageAfter (h : row ∈ pageAfter k p n after rows) :
    row ∈ rows ∧ p row = true ∧ after < k row := by
  obtain ⟨hrow, hcond⟩ := List.mem_filter.1 (List.mem_of_mem_take h)
  rw [Bool.and_eq_true, decide_eq_true_eq] at hcond
  exact ⟨hrow, hcond⟩

theorem le_of_pageAfter_eq_nil (hn : 0 < n) (h : pageAfter k p n after rows = []) (hrow : row ∈ rows)
    (hp : p row = true) : k row ≤ after := by
  by_contra hafter
  have hmem : row ∈ rows.filter fun row => p row && decide (after < k row) :=
    List.mem_filter.2 ⟨hrow, by rw [hp, decide_eq_true (Nat.lt_of_not_le hafter)]; rfl⟩
  rcases List.take_eq_nil_iff.1 h with hzero | hnil
  · omega
  · rw [hnil] at hmem
    cases hmem

/-- **A page leaves out no row before its last one.** -/
theorem mem_pageAfter_of_le (hsorted : rows.Pairwise fun a b => k a < k b) {last : ρ}
    (hlast : last ∈ pageAfter k p n after rows) (hrow : row ∈ rows) (hp : p row = true)
    (hafter : after < k row) (hle : k row ≤ k last) : row ∈ pageAfter k p n after rows := by
  unfold pageAfter at hlast ⊢
  have hmem : row ∈ rows.filter fun row => p row && decide (after < k row) :=
    List.mem_filter.2 ⟨hrow, by rw [hp, decide_eq_true hafter]; rfl⟩
  have hsorted := hsorted.filter fun row => p row && decide (after < k row)
  generalize rows.filter (fun row => p row && decide (after < k row)) = wanted at *
  rw [← List.take_append_drop n wanted] at hmem hsorted
  refine (List.mem_append.1 hmem).resolve_right fun hdrop => ?_
  have hlt := (List.pairwise_append.1 hsorted).2.2 last hlast row hdrop
  omega

end Lists

end Sys
