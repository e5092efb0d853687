import VpnBot.Users.BlockUser

/-!
# What a block accounts for

A row that stays live after its attempt keeps its room on the page, so rows behind a full page of such
rows are never tried.  `Reaches` says, before the loop runs, that no row has a full page in front of it,
and `Reports` that the rows whose revoker returned and left them live come on the last page; exactly
then a loop has tried every live row and accounts for it (`accountsForAll_iff`).
-/

namespace VpnBot.Users

open Sys

variable {κ σ : Type}

/-! ### The rows after their attempts -/

/-- What the attempt leaves of a row. -/
def settled (revokers : Revokers κ σ) (row : Access κ σ) : Option (Access κ σ) :=
  match revokers row.kind with
  | none => some row
  | some revoker => (revoker row.id).settle row

/-- The row has a revoker, which returns. -/
def returns (revokers : Revokers κ σ) (row : Access κ σ) : Bool :=
  match revokers row.kind with
  | none => false
  | some revoker => (revoker row.id).raises.isNone

section Rows

variable {texts : RevokeTexts σ} {revokers : Revokers κ σ} {table : AccessTable κ σ}
  {r : Revocation κ σ} {row row' : Access κ σ}

theorem id_of_settled (h : settled revokers row = some row') : row'.id = row.id := by
  unfold settled at h
  split at h
  · cases h
    rfl
  · exact id_of_settle h

theorem kind_of_settled (h : settled revokers row = some row') : row'.kind = row.kind := by
  unfold settled at h
  split at h
  · cases h
    rfl
  · obtain ⟨left, -, rfl⟩ := Option.map_eq_some_iff.1 h
    rfl

theorem eq_of_id_eq (hrow : row ∈ table.rows) (hrow' : row' ∈ table.rows) (hid : row.id = row'.id) :
    row = row' :=
  List.inj_on_of_nodup_map table.nodup hrow hrow' hid

theorem nodup_places {rows : List (Access κ σ)} (hnodup : (rows.map Access.id).Nodup) :
    (rows.map Access.place).Nodup := by
  apply List.Nodup.of_map fun place : ℕ ×ₗ ℕ ×ₗ ℕ => (ofLex (ofLex place).2).2
  rw [List.map_map]
  exact hnodup

theorem nodup_live (table : AccessTable κ σ) (live : σ → Bool) :
    ((table.rows.filter fun row => live row.status).map Access.id).Nodup :=
  table.nodup.sublist (List.filter_sublist.map _)

/-- The row as the loop has left it so far. -/
def version (revokers : Revokers κ σ) (r : Revocation κ σ) (row : Access κ σ) :
    Option (Access κ σ) :=
  if r.tried row.id then settled revokers row else some row

theorem id_of_version (h : version revokers r row = some row') : row'.id = row.id := by
  unfold version at h
  split_ifs at h
  · exact id_of_settled h
  · cases h
    rfl

/-! ### The invariant of an attempt -/

/-- The books of a loop in progress: the table holds what the attempts have left, only live rows were
tried, and the lists say how the attempts ended. -/
structure Tracks (texts : RevokeTexts σ) (revokers : Revokers κ σ) (table : AccessTable κ σ)
    (r : Revocation κ σ) : Prop where
  rows : r.table.rows = table.rows.filterMap (version revokers r)
  live : ∀ id, r.tried id = true → ∃ row ∈ table.rows, row.id = id ∧ texts.live row.status = true
  succeeded : ∀ row ∈ table.rows, row.id ∈ r.succeeded ↔
    r.tried row.id = true ∧ returns revokers row = true
  errors : ∀ row ∈ table.rows, (∃ e ∈ r.errors, e.keyId = row.id ∧ e.keyType = row.kind) ↔
    r.tried row.id = true ∧ returns revokers row = false

theorem tracks_start : Tracks texts revokers table (Revocation.start table) where
  rows := by
    have hversion : version revokers (Revocation.start table) = some := by
      funext row
      exact if_neg Bool.false_ne_true
    rw [hversion, List.filterMap_some]
    rfl
  live _ h := by cases h
  succeeded row _ := by simp [Revocation.start, Revocation.tried]
  errors row _ := by simp [Revocation.start, Revocation.tried]

theorem Tracks.mem_iff (h : Tracks texts revokers table r) :
    row' ∈ r.table.rows ↔ ∃ row ∈ table.rows, version revokers r row = some row' := by
  rw [h.rows, List.mem_filterMap]

theorem Tracks.mem_of_untried (h : Tracks texts revokers table r) (hrow : row ∈ r.table.rows)
    (htried : r.tried row.id = false) : row ∈ table.rows := by
  obtain ⟨before, hbefore, hversion⟩ := h.mem_iff.1 hrow
  rw [id_of_version hversion] at htried
  unfold version at hversion
  rw [htried] at hversion
  cases hversion
  exact hbefore

theorem Tracks.countP_live (h : Tracks texts revokers table r) (p : Access κ σ → Bool) :
    (r.table.rows.filter fun row => texts.live row.status).countP p =
      table.rows.countP fun row =>
        (version revokers r row).any fun row' => p row' && texts.live row'.status := by
  rw [List.countP_filter, h.rows, List.countP_filterMap]
  congr 1
  funext row
  cases version revokers r row <;> rfl

theorem tried_iff {id : ℕ} : r.tried id = true ↔ id ∈ r.succeeded ∨ id ∈ r.failed := by
  simp [Revocation.tried]

theorem lists_attempt (texts : RevokeTexts σ) (revokers : Revokers κ σ) (r : Revocation κ σ)
    (row : Access κ σ) (id : ℕ) :
    (id ∈ (r.attempt texts revokers row).succeeded ↔
      id ∈ r.succeeded ∨ id = row.id ∧ returns revokers row = true) ∧
    (id ∈ (r.attempt texts revokers row).failed ↔
      id ∈ r.failed ∨ id = row.id ∧ returns revokers row = false) ∧
    ∀ kind, (∃ e ∈ (r.attempt texts revokers row).errors, e.keyId = id ∧ e.keyType = kind) ↔
      (∃ e ∈ r.errors, e.keyId = id ∧ e.keyType = kind) ∨
        (row.id = id ∧ row.kind = kind) ∧ returns revokers row = false := by
  unfold Revocation.attempt returns
  cases revokers row.kind with
  | none => simp [Revocation.fail, or_and_right, exists_or]
  | some revoker =>
    cases hraises : (revoker row.id).raises with
    | none => simp [hraises]
    | some error => simp [Revocation.fail, hraises, or_and_right, exists_or]

theorem tried_attempt (id : ℕ) :
    (r.attempt texts revokers row).tried id = true ↔ r.tried id = true ∨ id = row.id := by
  obtain ⟨hsucceeded, hfailed, -⟩ := lists_attempt texts revokers r row id
  rw [tried_iff, tried_iff, hsucceeded, hfailed]
  grind

theorem table_attempt (hrows : r.table.rows = table.rows.filterMap (version revokers r))
    (hrow : row ∈ table.rows) (htried : r.tried row.id = false) :
    (r.attempt texts revokers row).table.rows =
      table.rows.filterMap (version revokers (r.attempt texts revokers row)) := by
  have hversion : ∀ x ∈ table.rows, version revokers (r.attempt texts revokers row) x =
      if x.id = row.id then settled revokers row else version revokers r x := by
    intro x hx
    unfold version
    by_cases hid : x.id = row.id
    · rw [if_pos ((tried_attempt x.id).2 (Or.inr hid)), if_pos hid, eq_of_id_eq hx hrow hid]
    · have htried_iff : (r.attempt texts revokers row).tried x.id = r.tried x.id := by
        rw [Bool.eq_iff_iff, tried_attempt]
        exact or_iff_left hid
      rw [if_neg hid, htried_iff]
  have hself : version revokers r row = some row := by
    unfold version
    rw [htried]
    rfl
  rw [List.filterMap_congr hversion]
  unfold Revocation.attempt settled
  cases hkind : revokers row.kind with
  | none =>
    show r.table.rows = _
    rw [hrows]
    refine List.filterMap_congr fun x hx => ?_
    split_ifs with hid
    · rw [eq_of_id_eq hx hrow hid, hself]
    · rfl
  | some revoker =>
    have hcalled : (r.table.write row.id (revoker row.id)).rows = table.rows.filterMap fun x =>
        if x.id = row.id then (revoker row.id).settle row else version revokers r x := by
      show r.table.rows.filterMap (writeRow row.id (revoker row.id)) = _
      rw [hrows, List.filterMap_filterMap]
      refine List.filterMap_congr fun x hx => ?_
      split_ifs with hid
      · rw [eq_of_id_eq hx hrow hid, hself]
        exact if_pos rfl
      · cases hx' : version revokers r x with
        | none => rfl
        | some x' =>
          show writeRow row.id (revoker row.id) x' = some x'
          exact if_neg (by rw [id_of_version hx']; exact hid)
    cases hraises : (revoker row.id).raises <;> simp only [hraises] <;> exact hcalled

/-- **An attempt keeps the books.** -/
theorem Tracks.attempt (h : Tracks texts revokers table r) (hrow : row ∈ table.rows)
    (hlive : texts.live row.status = true) (htried : r.tried row.id = false) :
    Tracks texts revokers table (r.attempt texts revokers row) where
  rows := table_attempt h.rows hrow htried
  live id hid := by
    rcases (tried_attempt id).1 hid with hid | rfl
    · exact h.live id hid
    · exact ⟨row, hrow, rfl, hlive⟩
  succeeded x hx := by
    obtain ⟨hsucceeded, -, -⟩ := lists_attempt texts revokers r row x.id
    rw [hsucceeded, tried_attempt, h.succeeded x hx]
    by_cases hid : x.id = row.id
    · rw [eq_of_id_eq hx hrow hid, htried]
      simp
    · simp [hid]
  errors x hx := by
    obtain ⟨-, -, herrors⟩ := lists_attempt texts revokers r row x.id
    rw [herrors, tried_attempt, h.errors x hx]
    by_cases hid : x.id = row.id
    · rw [eq_of_id_eq hx hrow hid, htried]
      simp
    · simp [hid, Ne.symm hid]

theorem Tracks.foldl (h : Tracks texts revokers table r) {pending : List (Access κ σ)}
    (hnodup : (pending.map Access.id).Nodup)
    (hpending : ∀ row ∈ pending, row ∈ table.rows ∧ texts.live row.status = true ∧
      r.tried row.id = false) :
    Tracks texts revokers table (pending.foldl (Revocation.attempt texts revokers) r) ∧
      ∀ id, (pending.foldl (Revocation.attempt texts revokers) r).tried id = true ↔
        r.tried id = true ∨ id ∈ pending.map Access.id := by
  induction pending generalizing r with
  | nil => exact ⟨h, fun id => by simp⟩
  | cons row pending ih =>
    obtain ⟨hnot, hnodup⟩ := List.nodup_cons.1 hnodup
    obtain ⟨hrow, hlive, htried⟩ := hpending row List.mem_cons_self
    obtain ⟨htracks, hiff⟩ := ih (h.attempt hrow hlive htried) hnodup fun x hx => by
      obtain ⟨hmem, hxlive, hxtried⟩ := hpending x (List.mem_cons_of_mem _ hx)
      refine ⟨hmem, hxlive, Bool.eq_false_iff.2 fun hattempted => ?_⟩
      rcases (tried_attempt x.id).1 hattempted with hold | hid
      · rw [hxtried] at hold
        cases hold
      · exact hnot (hid ▸ List.mem_map_of_mem hx)
    refine ⟨htracks, fun id => ?_⟩
    rw [List.foldl_cons, hiff, tried_attempt, List.map_cons, List.mem_cons, or_assoc]

end Rows

/-! ### The invariant of a page -/

/-- The other row is live before its attempt and after it, and in front of the row both times. -/
def blocks (texts : RevokeTexts σ) (revokers : Revokers κ σ) (row other : Access κ σ) : Bool :=
  texts.live other.status && other.place < row.place &&
    (settled revokers other).any fun left => left.place < row.place && texts.live left.status

/-- No live row has a full page in front of it for good. -/
def Reaches (texts : RevokeTexts σ) (revokers : Revokers κ σ) (table : AccessTable κ σ) : Prop :=
  ∀ row ∈ table.rows, texts.live row.status = true →
    table.rows.countP (blocks texts revokers row) < 500

/-- What is left of a row comes on the first page of what is left of all of them. -/
def Reports (texts : RevokeTexts σ) (revokers : Revokers κ σ) (table : AccessTable κ σ) : Prop :=
  ∀ row ∈ table.rows, texts.live row.status = true → returns revokers row = true →
    ∀ left ∈ settled revokers row, texts.live left.status = true →
      table.rows.countP (fun other => texts.live other.status &&
        (settled revokers other).any fun left' => left'.place < left.place &&
          texts.live left'.status) < 500

/-- The loop between two pages: it tries the rows in their order, and none behind a full page. -/
structure Reached (texts : RevokeTexts σ) (revokers : Revokers κ σ) (table : AccessTable κ σ)
    (r : Revocation κ σ) : Prop extends Tracks texts revokers table r where
  ahead : ∀ row ∈ table.rows, ∀ other ∈ table.rows, r.tried other.id = true →
    texts.live row.status = true → r.tried row.id = false → other.place < row.place
  blocked : ∀ row ∈ table.rows, 500 ≤ table.rows.countP (blocks texts revokers row) →
    r.tried row.id = false

section Pages

variable {texts : RevokeTexts σ} {revokers : Revokers κ σ} {table : AccessTable κ σ}
  {r : Revocation κ σ} {row row' : Access κ σ}

theorem mem_page (h : row ∈ r.table.listByOwnerStatuses texts.live 500) :
    row ∈ r.table.rows ∧ texts.live row.status = true :=
  List.mem_filter.1 (mem_of_mem_firstBy h)

theorem mem_page_iff : row ∈ r.table.listByOwnerStatuses texts.live 500 ↔
    (row ∈ r.table.rows ∧ texts.live row.status = true) ∧
      (r.table.rows.filter fun row => texts.live row.status).countP
        (fun other => other.place < row.place) < 500 := by
  unfold AccessTable.listByOwnerStatuses
  rw [mem_firstBy_iff (nodup_places (nodup_live r.table texts.live)), List.mem_filter]
  rfl

theorem Tracks.mem_rows_of_untried (h : Tracks texts revokers table r) (hrow : row ∈ table.rows)
    (htried : r.tried row.id = false) : row ∈ r.table.rows := by
  refine h.mem_iff.2 ⟨row, hrow, ?_⟩
  unfold version
  rw [htried]
  rfl

theorem Reached.not_mem_page (h : Reached texts revokers table r)
    (hblocked : 500 ≤ table.rows.countP (blocks texts revokers row)) :
    row ∉ r.table.listByOwnerStatuses texts.live 500 := by
  intro hpage
  have hcount := (mem_page_iff.1 hpage).2
  rw [h.countP_live] at hcount
  apply absurd hcount
  rw [not_lt]
  apply hblocked.trans
  apply List.countP_mono_left
  intro other _ hother
  simp only [blocks, Bool.and_eq_true, decide_eq_true_eq] at hother
  unfold version
  split_ifs
  · exact hother.2
  · simp [hother.1.1, hother.1.2]

theorem Reached.pending (h : Reached texts revokers table r)
    (hrow : row ∈ (r.table.listByOwnerStatuses texts.live 500).filter fun access =>
      !r.tried access.id) :
    row ∈ table.rows ∧ texts.live row.status = true ∧ r.tried row.id = false := by
  obtain ⟨hpage, htried⟩ := List.mem_filter.1 hrow
  obtain ⟨hmem, hlive⟩ := mem_page hpage
  have huntried : r.tried row.id = false := by simpa using htried
  exact ⟨h.mem_of_untried hmem huntried, hlive, huntried⟩

/-- **A page keeps the invariant.** -/
theorem Reached.round (h : Reached texts revokers table r) {pending : List (Access κ σ)}
    (hpending : pending = (r.table.listByOwnerStatuses texts.live 500).filter fun access =>
      !r.tried access.id) :
    Reached texts revokers table (pending.foldl (Revocation.attempt texts revokers) r) ∧
      ∀ id, (pending.foldl (Revocation.attempt texts revokers) r).tried id = true ↔
        r.tried id = true ∨ id ∈ pending.map Access.id := by
  have hmem : ∀ row ∈ pending, row ∈ table.rows ∧ texts.live row.status = true ∧
      r.tried row.id = false := fun row hrow => h.pending (hpending ▸ hrow)
  have hnodup : (pending.map Access.id).Nodup := by
    rw [hpending]
    exact (nodup_map_firstBy (nodup_live r.table texts.live)).sublist (List.filter_sublist.map _)
  obtain ⟨htracks, htried⟩ := h.toTracks.foldl hnodup hmem
  -- a live row that is not tried in this round either stands behind the page
  have hbehind : ∀ row ∈ table.rows, texts.live row.status = true →
      (pending.foldl (Revocation.attempt texts revokers) r).tried row.id = false →
        r.tried row.id = false ∧ row ∈ r.table.rows ∧
          row ∉ r.table.listByOwnerStatuses texts.live 500 := by
    intro row hrow hlive huntried
    have hnot := mt (htried row.id).2 (Bool.eq_false_iff.1 huntried)
    rw [not_or] at hnot
    have hbefore : r.tried row.id = false := Bool.eq_false_iff.2 hnot.1
    refine ⟨hbefore, h.mem_rows_of_untried hrow hbefore, fun hpage => hnot.2 ?_⟩
    rw [hpending]
    exact List.mem_map_of_mem (List.mem_filter.2 ⟨hpage, by simp [hbefore]⟩)
  refine ⟨⟨htracks, fun row hrow other hother hattempted hlive huntried => ?_,
    fun row hrow hblocked => ?_⟩, htried⟩
  · obtain ⟨hbefore, hcurrent, hpage⟩ := hbehind row hrow hlive huntried
    rcases (htried other.id).1 hattempted with hold | hnew
    · exact h.ahead row hrow other hother hold hlive hbefore
    · obtain ⟨tried, htriedMem, hid⟩ := List.mem_map.1 hnew
      have heq : tried = other := eq_of_id_eq (hmem tried htriedMem).1 hother hid
      subst heq
      have hcount := (mem_page_iff.1 (List.mem_of_mem_filter (hpending ▸ htriedMem))).2
      by_contra hle
      refine hpage (mem_page_iff.2 ⟨⟨hcurrent, hlive⟩, lt_of_le_of_lt ?_ hcount⟩)
      apply List.countP_mono_left
      intro x _ hx
      simp only [decide_eq_true_eq] at hx ⊢
      exact hx.trans_le (not_lt.1 hle)
  · have hold := h.blocked row hrow hblocked
    refine Bool.eq_false_iff.2 fun hattempted => ?_
    rcases (htried row.id).1 hattempted with hbefore | hnew
    · rw [hold] at hbefore
      cases hbefore
    · obtain ⟨tried, htriedMem, hid⟩ := List.mem_map.1 hnew
      have heq : tried = row := eq_of_id_eq (hmem tried htriedMem).1 hrow hid
      subst heq
      exact h.not_mem_page hblocked (List.mem_of_mem_filter (hpending ▸ htriedMem))

theorem reached_start (texts : RevokeTexts σ) (revokers : Revokers κ σ)
    (table : AccessTable κ σ) :
    Reached texts revokers table (Revocation.start table) where
  toTracks := tracks_start
  ahead _ _ _ _ h := by cases h
  blocked _ _ _ := rfl

theorem reportStuck_nil (texts : RevokeTexts σ) (r : Revocation κ σ) :
    r.reportStuck texts [] = r := by
  simp [Revocation.reportStuck]

/-- The loop is done: every row of the page was tried, and the page is reported. -/
def Done (texts : RevokeTexts σ) (revokers : Revokers κ σ) (table : AccessTable κ σ)
    (last : Revocation κ σ) : Prop :=
  Reached texts revokers table last ∧
    ∀ row ∈ last.table.listByOwnerStatuses texts.live 500, last.tried row.id = true

theorem revokeAll_of_done (pages : ℕ)
    (h : ((r.table.listByOwnerStatuses texts.live 500).filter fun row => !r.tried row.id) = []) :
    r.revokeAll texts revokers (pages + 1) =
      some (r.reportStuck texts (r.table.listByOwnerStatuses texts.live 500)) := by
  rw [Revocation.revokeAll]
  dsimp only
  by_cases hempty : (r.table.listByOwnerStatuses texts.live 500).isEmpty
  · rw [if_pos hempty, List.isEmpty_iff.1 hempty, reportStuck_nil]
  · rw [if_neg hempty, if_pos (List.isEmpty_iff.2 h)]

theorem revokeAll_of_pending (pages : ℕ) {pending : List (Access κ σ)}
    (hpending : pending = (r.table.listByOwnerStatuses texts.live 500).filter fun row =>
      !r.tried row.id) (hne : pending ≠ []) :
    r.revokeAll texts revokers (pages + 1) =
      (pending.foldl (Revocation.attempt texts revokers) r).revokeAll texts revokers pages := by
  rw [Revocation.revokeAll]
  dsimp only
  rw [← hpending, if_neg (mt List.isEmpty_iff.1 hne), if_neg]
  rw [List.isEmpty_iff]
  intro hempty
  rw [hempty] at hpending
  exact hne hpending

/-- **The loop ends**: each page but the last tries a row that was not tried. -/
theorem Reached.revokeAll (n : ℕ) (h : Reached texts revokers table r)
    (hleft : (table.rows.filter fun row => texts.live row.status && !r.tried row.id).length ≤ n) :
    ∃ last, Done texts revokers table last ∧ ∀ pages, n < pages →
      r.revokeAll texts revokers pages =
        some (last.reportStuck texts (last.table.listByOwnerStatuses texts.live 500)) := by
  induction n generalizing r with
  | zero =>
    have hnone : ((r.table.listByOwnerStatuses texts.live 500).filter fun row => !r.tried row.id) =
        [] := by
      rw [List.eq_nil_iff_forall_not_mem]
      intro row hrow
      have hpending := h.pending hrow
      rw [Nat.le_zero, List.length_eq_zero_iff, List.filter_eq_nil_iff] at hleft
      exact hleft row hpending.1 (by simp [hpending.2])
    refine ⟨r, ⟨h, fun row hpage => by simpa using List.filter_eq_nil_iff.1 hnone row hpage⟩, ?_⟩
    intro pages hpages
    obtain ⟨pages, rfl⟩ := Nat.exists_eq_succ_of_ne_zero hpages.ne'
    exact revokeAll_of_done pages hnone
  | succ n ih =>
    generalize hpending : ((r.table.listByOwnerStatuses texts.live 500).filter fun row =>
      !r.tried row.id) = pending
    by_cases hnone : pending = []
    · subst hnone
      refine ⟨r, ⟨h, fun row hpage => by simpa using List.filter_eq_nil_iff.1 hpending row hpage⟩,
        ?_⟩
      intro pages hpages
      obtain ⟨pages, rfl⟩ := Nat.exists_eq_succ_of_ne_zero (Nat.ne_of_gt (Nat.zero_lt_of_lt hpages))
      exact revokeAll_of_done pages hpending
    · obtain ⟨hround, htried⟩ := h.round hpending.symm
      -- the first row of the round was not tried before
      have hless : (table.rows.filter fun row => texts.live row.status &&
          !(pending.foldl (Revocation.attempt texts revokers) r).tried row.id).length ≤ n := by
        obtain ⟨row, hrow⟩ := List.exists_mem_of_ne_nil pending hnone
        obtain ⟨hmem, hlive, huntried⟩ := h.pending (hpending ▸ hrow)
        have hsub : ∀ x ∈ table.rows, (texts.live x.status &&
            !(pending.foldl (Revocation.attempt texts revokers) r).tried x.id) =
            ((!(pending.foldl (Revocation.attempt texts revokers) r).tried x.id) &&
              (texts.live x.status && !r.tried x.id)) := by
          intro x _
          cases hx : (pending.foldl (Revocation.attempt texts revokers) r).tried x.id with
          | true => simp
          | false =>
            have hbefore : r.tried x.id = false := by
              refine Bool.eq_false_iff.2 fun hold => ?_
              rw [(htried x.id).2 (Or.inl hold)] at hx
              cases hx
            simp [hbefore]
        rw [List.filter_congr hsub, ← List.filter_filter]
        refine Nat.le_of_lt_succ (lt_of_lt_of_le ?_ hleft)
        rw [List.length_filter_lt_length_iff_exists]
        refine ⟨row, List.mem_filter.2 ⟨hmem, by simp [hlive, huntried]⟩, ?_⟩
        simp [(htried row.id).2 (Or.inr (List.mem_map_of_mem hrow))]
      obtain ⟨last, hdone, hruns⟩ := ih hround hless
      refine ⟨last, hdone, fun pages hpages => ?_⟩
      obtain ⟨pages, rfl⟩ := Nat.exists_eq_succ_of_ne_zero (Nat.ne_of_gt (Nat.zero_lt_of_lt hpages))
      rw [revokeAll_of_pending pages hpending.symm hnone]
      exact hruns pages (Nat.lt_of_succ_lt_succ hpages)

end Pages

/-! ### What a loop accounts for -/

/-- Every live row was tried, with success or an error, and has left the live statuses or is in the
errors. -/
structure AccountsForAll (texts : RevokeTexts σ) (table : AccessTable κ σ) (r : Revocation κ σ) :
    Prop where
  attempted : ∀ row ∈ table.rows, texts.live row.status = true →
    row.id ∈ r.succeeded ∨ ∃ e ∈ r.errors, e.keyId = row.id ∧ e.keyType = row.kind
  settled : ∀ row ∈ table.rows, texts.live row.status = true →
    (∀ left ∈ r.table.rows, left.id = row.id → texts.live left.status = false) ∨
      ∃ e ∈ r.errors, e.keyId = row.id ∧ e.keyType = row.kind

section Accounts

variable {texts : RevokeTexts σ} {revokers : Revokers κ σ} {table : AccessTable κ σ}
  {last : Revocation κ σ} {row left : Access κ σ}

theorem Done.tried (h : Done texts revokers table last) (hreaches : Reaches texts revokers table)
    (hrow : row ∈ table.rows) (hlive : texts.live row.status = true) : last.tried row.id = true := by
  by_contra htried
  have huntried : last.tried row.id = false := Bool.eq_false_iff.2 htried
  have hcurrent := h.1.mem_rows_of_untried hrow huntried
  have hpage : row ∉ last.table.listByOwnerStatuses texts.live 500 := fun hpage =>
    htried (h.2 row hpage)
  have hfull := le_countP_of_not_mem_firstBy (nodup_places (nodup_live last.table texts.live))
    (List.mem_filter.2 ⟨hcurrent, hlive⟩) hpage (p := fun other => last.tried other.id) h.2
  rw [h.1.countP_live] at hfull
  apply absurd (hreaches row hrow hlive)
  rw [not_lt]
  apply hfull.trans
  apply List.countP_mono_left
  intro other hother hcounted
  cases hversion : version revokers last other with
  | none => simp [hversion] at hcounted
  | some current =>
    rw [hversion] at hcounted
    simp only [Option.any_some, Bool.and_eq_true, decide_eq_true_eq] at hcounted
    obtain ⟨⟨hcurrentTried, hplace⟩, hcurrentLive⟩ := hcounted
    rw [id_of_version hversion] at hcurrentTried
    obtain ⟨tried, htriedMem, hid, htriedLive⟩ := h.1.live other.id hcurrentTried
    have heq : tried = other := eq_of_id_eq htriedMem hother hid
    subst heq
    unfold version at hversion
    rw [if_pos hcurrentTried] at hversion
    simp [blocks, hversion, htriedLive, hplace, hcurrentLive,
      h.1.ahead row hrow tried hother hcurrentTried hlive huntried]

theorem Tracks.countP_settled (h : Tracks texts revokers table last)
    (hall : ∀ row ∈ table.rows, texts.live row.status = true → last.tried row.id = true)
    (p : Access κ σ → Bool) :
    (last.table.rows.filter fun row => texts.live row.status).countP p =
      table.rows.countP fun row => texts.live row.status &&
        (settled revokers row).any fun left => p left && texts.live left.status := by
  rw [h.countP_live]
  apply List.countP_congr
  intro row hrow
  unfold version
  cases hlive : texts.live row.status with
  | true => simp [hall row hrow hlive]
  | false =>
    have htried : last.tried row.id = false := by
      refine Bool.eq_false_iff.2 fun htried => ?_
      obtain ⟨tried, hmem, hid, htriedLive⟩ := h.live row.id htried
      rw [eq_of_id_eq hmem hrow hid, hlive] at htriedLive
      cases htriedLive
    simp [htried, hlive]

theorem Tracks.settled_of_mem (h : Tracks texts revokers table last) (hrow : row ∈ table.rows)
    (htried : last.tried row.id = true) (hleft : left ∈ last.table.rows) (hid : left.id = row.id) :
    settled revokers row = some left := by
  obtain ⟨before, hbefore, hversion⟩ := h.mem_iff.1 hleft
  have heq : before = row := eq_of_id_eq hbefore hrow ((id_of_version hversion).symm.trans hid)
  subst heq
  unfold version at hversion
  rwa [if_pos htried] at hversion

theorem Tracks.mem_of_settled (h : Tracks texts revokers table last) (hrow : row ∈ table.rows)
    (htried : last.tried row.id = true) (hsettled : settled revokers row = some left) :
    left ∈ last.table.rows := by
  refine h.mem_iff.2 ⟨row, hrow, ?_⟩
  unfold version
  rw [if_pos htried, hsettled]

theorem errors_reportStuck (id : ℕ) (kind : κ) :
    (∃ e ∈ (last.reportStuck texts (last.table.listByOwnerStatuses texts.live 500)).errors,
      e.keyId = id ∧ e.keyType = kind) ↔
    (∃ e ∈ last.errors, e.keyId = id ∧ e.keyType = kind) ∨
      ∃ left ∈ last.table.listByOwnerStatuses texts.live 500, left.id ∈ last.succeeded ∧
        left.id = id ∧ left.kind = kind := by
  simp [Revocation.reportStuck, or_and_right, exists_or, and_assoc]

theorem Tracks.attempted_iff (h : Tracks texts revokers table last) (hrow : row ∈ table.rows) :
    (row.id ∈ (last.reportStuck texts (last.table.listByOwnerStatuses texts.live 500)).succeeded ∨
      ∃ e ∈ (last.reportStuck texts (last.table.listByOwnerStatuses texts.live 500)).errors,
        e.keyId = row.id ∧ e.keyType = row.kind) ↔ last.tried row.id = true := by
  rw [errors_reportStuck]
  constructor
  · rintro (hsucceeded | herror | ⟨left, -, hsucceeded, hid, -⟩)
    · exact ((h.succeeded row hrow).1 hsucceeded).1
    · exact ((h.errors row hrow).1 herror).1
    · exact tried_iff.2 (Or.inl (hid ▸ hsucceeded))
  · intro htried
    cases hreturns : returns revokers row with
    | true => exact Or.inl ((h.succeeded row hrow).2 ⟨htried, hreturns⟩)
    | false => exact Or.inr (Or.inl ((h.errors row hrow).2 ⟨htried, hreturns⟩))

/-- **A loop accounts for all live rows exactly when it reaches them and reports what is left.** -/
theorem Done.accountsForAll_iff (h : Done texts revokers table last) :
    AccountsForAll texts table
        (last.reportStuck texts (last.table.listByOwnerStatuses texts.live 500)) ↔
      Reaches texts revokers table ∧ Reports texts revokers table := by
  constructor
  · rintro ⟨hlisted, hsettled⟩
    have hattempted : ∀ row ∈ table.rows, texts.live row.status = true →
        last.tried row.id = true := fun row hrow hlive =>
      (h.1.attempted_iff hrow).1 (hlisted row hrow hlive)
    refine ⟨fun row hrow hlive => ?_, fun row hrow hlive hreturns left hleft hleftLive => ?_⟩
    · by_contra hblocked
      have huntried := h.1.blocked row hrow (not_lt.1 hblocked)
      have htried := hattempted row hrow hlive
      rw [huntried] at htried
      cases htried
    · have htried := hattempted row hrow hlive
      have hmem := h.1.mem_of_settled hrow htried hleft
      have hid := id_of_settled hleft
      rcases hsettled row hrow hlive with hdead | hlisted
      · rw [hdead left hmem hid] at hleftLive
        cases hleftLive
      rw [errors_reportStuck] at hlisted
      rcases hlisted with herror | ⟨stuck, hpage, -, hstuckId, -⟩
      · have hfailed := ((h.1.errors row hrow).1 herror).2
        rw [hreturns] at hfailed
        cases hfailed
      · have heq : stuck = left :=
          eq_of_id_eq (mem_page hpage).1 hmem (hstuckId.trans hid.symm)
        subst heq
        rw [← h.1.countP_settled hattempted fun other => other.place < stuck.place]
        exact (mem_page_iff.1 hpage).2
  · rintro ⟨hreaches, hreports⟩
    have hall : ∀ row ∈ table.rows, texts.live row.status = true → last.tried row.id = true :=
      fun row hrow hlive => h.tried hreaches hrow hlive
    refine ⟨fun row hrow hlive => (h.1.attempted_iff hrow).2 (hall row hrow hlive),
      fun row hrow hlive => ?_⟩
    rw [errors_reportStuck]
    cases hreturns : returns revokers row with
    | false => exact Or.inr (Or.inl ((h.1.errors row hrow).2 ⟨hall row hrow hlive, hreturns⟩))
    | true =>
      by_cases hdead : ∀ left ∈ last.table.rows, left.id = row.id → texts.live left.status = false
      · exact Or.inl hdead
      push Not at hdead
      obtain ⟨left, hmem, hid, hleftLive⟩ := hdead
      rw [ne_eq, Bool.not_eq_false] at hleftLive
      have hleft := h.1.settled_of_mem hrow (hall row hrow hlive) hmem hid
      refine Or.inr (Or.inr ⟨left, mem_page_iff.2 ⟨⟨hmem, hleftLive⟩, ?_⟩, ?_, hid,
        kind_of_settled hleft⟩)
      · rw [h.1.countP_settled hall fun other => other.place < left.place]
        exact hreports row hrow hlive hreturns left hleft hleftLive
      · rw [hid]
        exact (h.1.succeeded row hrow).2 ⟨hall row hrow hlive, hreturns⟩

theorem exists_revokeAll (texts : RevokeTexts σ) (revokers : Revokers κ σ) (table : AccessTable κ σ) :
    ∃ r, (∃ n, ∀ pages, n < pages → (Revocation.start table).revokeAll texts revokers pages = some r) ∧
      (AccountsForAll texts table r ↔
        Reaches texts revokers table ∧ Reports texts revokers table) := by
  obtain ⟨last, hdone, hruns⟩ := (reached_start texts revokers table).revokeAll _ le_rfl
  exact ⟨_, ⟨_, hruns⟩, hdone.accountsForAll_iff⟩

end Accounts

/-! ### The block -/

/-- The result of a block accounts for the keys and the accesses that were live: each was tried, and is
terminal or gone, or listed in the errors. -/
structure BlockAccounts (keys : AccessTable VpnKeyType VpnKeyStatus)
    (accesses : AccessTable ProxyAccessType ProxyAccessStatus) (result : BlockUserResult) : Prop where
  keysAttempted : ∀ key ∈ keys.rows, keyTexts.live key.status = true →
    key.id ∈ result.revokedKeyIds ∨ ∃ e ∈ result.errors, e.keyId = key.id ∧ e.keyType = .inl key.kind
  keysSettled : ∀ key ∈ keys.rows, keyTexts.live key.status = true →
    (∀ left ∈ result.keys.rows, left.id = key.id → keyTexts.live left.status = false) ∨
      ∃ e ∈ result.errors, e.keyId = key.id ∧ e.keyType = .inl key.kind
  accessesAttempted : ∀ access ∈ accesses.rows, proxyTexts.live access.status = true →
    access.id ∈ result.revokedProxyIds ∨
      ∃ e ∈ result.errors, e.keyId = access.id ∧ e.keyType = .inr access.kind
  accessesSettled : ∀ access ∈ accesses.rows, proxyTexts.live access.status = true →
    (∀ left ∈ result.accesses.rows, left.id = access.id → proxyTexts.live left.status = false) ∨
      ∃ e ∈ result.errors, e.keyId = access.id ∧ e.keyType = .inr access.kind

section Block

variable {keys : AccessTable VpnKeyType VpnKeyStatus}
  {accesses : AccessTable ProxyAccessType ProxyAccessStatus}
  {keyLoop : Revocation VpnKeyType VpnKeyStatus}
  {proxyLoop : Revocation ProxyAccessType ProxyAccessStatus}

theorem key_errors (id : ℕ) (kind : VpnKeyType) :
    (∃ e ∈ (blockUserResult keyLoop proxyLoop).errors, e.keyId = id ∧ e.keyType = .inl kind) ↔
      ∃ e ∈ keyLoop.errors, e.keyId = id ∧ e.keyType = kind := by
  simp [blockUserResult, or_and_right, exists_or]

theorem access_errors (id : ℕ) (kind : ProxyAccessType) :
    (∃ e ∈ (blockUserResult keyLoop proxyLoop).errors, e.keyId = id ∧ e.keyType = .inr kind) ↔
      ∃ e ∈ proxyLoop.errors, e.keyId = id ∧ e.keyType = kind := by
  simp [blockUserResult, or_and_right, exists_or]

theorem blockAccounts_loops_iff : BlockAccounts keys accesses (blockUserResult keyLoop proxyLoop) ↔
    AccountsForAll keyTexts keys keyLoop ∧ AccountsForAll proxyTexts accesses proxyLoop := by
  constructor
  · rintro ⟨hkeys, hkeysSettled, haccesses, haccessesSettled⟩
    simp only [key_errors] at hkeys hkeysSettled
    simp only [access_errors] at haccesses haccessesSettled
    exact ⟨⟨hkeys, hkeysSettled⟩, ⟨haccesses, haccessesSettled⟩⟩
  · rintro ⟨⟨hkeys, hkeysSettled⟩, ⟨haccesses, haccessesSettled⟩⟩
    constructor
    · simp only [key_errors]
      exact hkeys
    · simp only [key_errors]
      exact hkeysSettled
    · simp only [access_errors]
      exact haccesses
    · simp only [access_errors]
      exact haccessesSettled

theorem revokeActiveKeys_of_loops {keyRevokers : Revokers VpnKeyType VpnKeyStatus}
    {proxyRevokers : Revokers ProxyAccessType ProxyAccessStatus}
    (hkeys : ∃ n, ∀ pages, n < pages →
      (Revocation.start keys).revokeAll keyTexts keyRevokers pages = some keyLoop)
    (haccesses : ∃ n, ∀ pages, n < pages →
      (Revocation.start accesses).revokeAll proxyTexts proxyRevokers pages = some proxyLoop) :
    ∃ n, ∀ pages, n < pages → revokeActiveKeys keyRevokers proxyRevokers pages keys accesses =
      some (blockUserResult keyLoop proxyLoop) := by
  obtain ⟨n, hkeys⟩ := hkeys
  obtain ⟨m, haccesses⟩ := haccesses
  refine ⟨max n m, fun pages hpages => ?_⟩
  unfold revokeActiveKeys revokeAllAccessKeys revokeAllProxyAccesses
  rw [hkeys pages (lt_of_le_of_lt (le_max_left n m) hpages),
    haccesses pages (lt_of_le_of_lt (le_max_right n m) hpages)]
  rfl

end Block

/-- **A block ends, and accounts for everything exactly when no live row has a full page in front of it
for good, and what the revokers returned for and left live comes on the last page.** -/
theorem blockAccounts_iff (keyRevokers : Revokers VpnKeyType VpnKeyStatus)
    (proxyRevokers : Revokers ProxyAccessType ProxyAccessStatus)
    (keys : AccessTable VpnKeyType VpnKeyStatus)
    (accesses : AccessTable ProxyAccessType ProxyAccessStatus) :
    ∃ result, (∃ n, ∀ pages, n < pages →
        revokeActiveKeys keyRevokers proxyRevokers pages keys accesses = some result) ∧
      (BlockAccounts keys accesses result ↔
        (Reaches keyTexts keyRevokers keys ∧ Reports keyTexts keyRevokers keys) ∧
          Reaches proxyTexts proxyRevokers accesses ∧ Reports proxyTexts proxyRevokers accesses) := by
  obtain ⟨keyLoop, hkeys, hkeysIff⟩ := exists_revokeAll keyTexts keyRevokers keys
  obtain ⟨proxyLoop, haccesses, haccessesIff⟩ := exists_revokeAll proxyTexts proxyRevokers accesses
  refine ⟨blockUserResult keyLoop proxyLoop, revokeActiveKeys_of_loops hkeys haccesses, ?_⟩
  rw [blockAccounts_loops_iff, hkeysIff, haccessesIff]

/-! ### A block that misses a key -/

def keyOfDay (n : ℕ) : Access VpnKeyType VpnKeyStatus := ⟨n, .awg, .active, n, 0⟩

def keysOfDays (days : ℕ) : AccessTable VpnKeyType VpnKeyStatus where
  rows := (List.range days).map keyOfDay
  nodup := by
    rw [List.map_map]
    exact List.nodup_range.map fun _ _ heq => heq

theorem mem_keysOfDays {n days : ℕ} (h : n < days) : keyOfDay n ∈ (keysOfDays days).rows :=
  List.mem_map_of_mem (List.mem_range.2 h)

/-- The backend is down for the oldest 500 of them. -/
def mostlyDown : Revokers VpnKeyType VpnKeyStatus
  | .awg => some fun id =>
    if id < 500 then ⟨some "backend", some (.active, id, 0)⟩ else ⟨none, some (.revoked, id, 0)⟩
  | _ => none

/-- The 500 keys that stay fill the page, and the last key is never tried. -/
theorem not_blockAccounts_mostlyDown :
    ∃ result, (∃ n, ∀ pages, n < pages →
        revokeActiveKeys mostlyDown (fun _ => none) pages (keysOfDays 501) ⟨[], List.nodup_nil⟩ =
          some result) ∧
      ¬ BlockAccounts (keysOfDays 501) ⟨[], List.nodup_nil⟩ result := by
  obtain ⟨keyLoop, hkeys, hkeysIff⟩ := exists_revokeAll keyTexts mostlyDown (keysOfDays 501)
  obtain ⟨proxyLoop, haccesses, -⟩ :=
    exists_revokeAll proxyTexts (fun _ => none) ⟨[], List.nodup_nil⟩
  refine ⟨blockUserResult keyLoop proxyLoop, revokeActiveKeys_of_loops hkeys haccesses, ?_⟩
  rw [blockAccounts_loops_iff, hkeysIff]
  rintro ⟨⟨hreaches, -⟩, -⟩
  have hlast : keyOfDay 500 ∈ (keysOfDays 501).rows := mem_keysOfDays (by decide)
  have hblocked : 500 ≤ (keysOfDays 501).rows.countP (blocks keyTexts mostlyDown (keyOfDay 500)) := by
    decide +kernel
  have hfree := hreaches (keyOfDay 500) hlast rfl
  generalize (keysOfDays 501).rows.countP (blocks keyTexts mostlyDown (keyOfDay 500)) = n at hblocked hfree
  omega

end VpnBot.Users
