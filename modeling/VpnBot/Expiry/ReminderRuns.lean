import VpnBot.Expiry.Reminders

/-!
# All runs of the reminder job

A key is reached at a threshold when a message was sent for it, or when it is marked since the reminder of a
smaller threshold went out in the same run.  The keys of users who opted out, and those whose message
fails, are before a key in every run until they expire; of the others a page without the key marks one
at least (`countP_due_remindAt_lt`).
-/

namespace VpnBot.Expiry

open Sys

variable {users : Recipients} {keys : VpnKeys} {key row : VpnKey} {now now' : ℤ} {x : Reminding}
  {run days : ℕ}

def dueBefore (now : ℤ) (days : ℕ) (key row : VpnKey) : Bool :=
  row.place < key.place && row.isDue now (addDays now days) days

/-- One of them whose owner opted out or does not get the message. -/
def unreachedBefore (users : Recipients) (now : ℤ) (days : ℕ) (key row : VpnKey) : Bool :=
  !users.reaches row && dueBefore now days key row

/-- The row of a key that is not marked at the threshold. -/
def Unmarked (days : ℕ) (key row : VpnKey) : Prop :=
  row = { key with expiryNotifiedDays := row.expiryNotifiedDays } ∧ days ∉ row.expiryNotifiedDays

/-- The key was reached at the threshold: a message was sent, or the row is marked. -/
def Reached (keys : VpnKeys) (sends : List Send) (key : VpnKey) (days : ℕ) : Prop :=
  (∃ e ∈ sends, e.keyId = key.id ∧ e.days = days) ∨
    ∃ row ∈ keys.rows, row.id = key.id ∧ days ∈ row.expiryNotifiedDays

theorem Unmarked.id_eq (h : Unmarked days key row) : row.id = key.id := by
  rw [h.1]

theorem Unmarked.place_eq (h : Unmarked days key row) : row.place = key.place := by
  rw [h.1]
  rfl

theorem Unmarked.isDue (h : Unmarked days key row) {deadline : ℤ}
    (hdue : key.isDue now deadline days = true) : row.isDue now deadline days = true := by
  obtain ⟨hactive, hexpires, -⟩ := isDue_iff.1 hdue
  obtain ⟨hrow, hunmarked⟩ := h
  rw [hrow]
  exact isDue_iff.2 ⟨hactive, hexpires, hunmarked⟩

theorem unmarked_self {deadline : ℤ} (hdue : key.isDue now deadline days = true) :
    Unmarked days key key := ⟨rfl, (isDue_iff.1 hdue).2.2⟩

theorem mem_duePage_iff (hrow : row ∈ keys.rows) (hunmarked : Unmarked days key row)
    (hdue : key.isDue now (addDays now days) days = true) :
    row ∈ duePage keys now days ↔ keys.rows.countP (dueBefore now days key) < 200 := by
  unfold duePage listNotNotifiedExpiring
  rw [mem_firstBy_iff (nodup_places _), List.countP_filter, hunmarked.place_eq]
  exact and_iff_right (List.mem_filter.2 ⟨hrow, hunmarked.isDue hdue⟩)

/-! ### Passes -/

theorem dueBefore_of_marked {d : ℕ} (h : dueBefore now days key (row.marked d) = true) :
    dueBefore now days key row = true := by
  unfold dueBefore at h ⊢
  rw [Bool.and_eq_true, isDue_iff] at h ⊢
  obtain ⟨hplace, hactive, hexpires, hmarked⟩ := h
  exact ⟨hplace, hactive, hexpires, fun hd => hmarked (Finset.mem_insert_of_mem hd)⟩

theorem countP_due_remindAt_le (hsound : x.Sound users) (d : ℕ) :
    (remindAt users run now x d).keys.rows.countP (dueBefore now' days key) ≤
      x.keys.rows.countP (dueBefore now' days key) := by
  rw [rows_remindAt hsound, List.countP_map]
  refine List.countP_mono_left fun row _ h => ?_
  rw [Function.comp_apply] at h
  split at h
  · exact dueBefore_of_marked h
  · exact h

theorem countP_unreached_remindAt (hsound : x.Sound users) (d : ℕ) :
    (remindAt users run now x d).keys.rows.countP (unreachedBefore users now' days key) =
      x.keys.rows.countP (unreachedBefore users now' days key) := by
  rw [rows_remindAt hsound, List.countP_map]
  refine List.countP_congr fun row _ => ?_
  rw [Function.comp_apply]
  split
  · rename_i hmoves
    have : users.reaches (row.marked d) = true := hmoves.2
    simp [unreachedBefore, this, hmoves.2]
  · exact Iff.rfl

theorem countP_due_remindAt_lt (hsound : x.Sound users)
    (hahead : 200 ≤ x.keys.rows.countP (dueBefore now days key))
    (hunreached : x.keys.rows.countP (unreachedBefore users now days key) < 200) :
    (remindAt users run now x days).keys.rows.countP (dueBefore now days key) <
      x.keys.rows.countP (dueBefore now days key) := by
  obtain ⟨row, hpage, hreaches, hlt⟩ : ∃ row ∈ duePage x.keys now days,
      (!users.reaches row) = false ∧ row.place < key.place := by
    refine exists_moving (nodup_places _) ?_ ?_
    · rw [List.countP_filter]
      exact hahead
    · rw [List.countP_filter]
      refine lt_of_le_of_lt (List.countP_mono_left fun row _ h => ?_) hunreached
      simpa [unreachedBefore, dueBefore, and_assoc] using h
  have hreaches : users.reaches row = true := by simpa using hreaches
  obtain ⟨hrow, hdue⟩ := mem_duePage hpage
  rw [rows_remindAt hsound, List.countP_map]
  refine countP_lt_of_mem (fun r _ h => ?_) hrow ?_ ?_
  · rw [Function.comp_apply] at h
    split at h
    · exact dueBefore_of_marked h
    · exact h
  · simp [dueBefore, hlt, hdue]
  · rw [Function.comp_apply, if_pos ⟨hpage, hreaches⟩]
    simp [dueBefore, VpnKey.isDue, VpnKey.marked]

theorem Reached.remindAt {d : ℕ} (hsound : x.Sound users) (h : Reached x.keys x.sends key days) :
    Reached (Expiry.remindAt users run now x d).keys (Expiry.remindAt users run now x d).sends key
      days := by
  rcases h with ⟨e, he, hsent⟩ | ⟨row, hrow, hid, hmarked⟩
  · exact Or.inl ⟨e, sends_subset_foldl _ he, hsent⟩
  · refine Or.inr ?_
    rw [rows_remindAt hsound]
    refine ⟨_, List.mem_map.2 ⟨row, hrow, rfl⟩, ?_⟩
    split
    · exact ⟨hid, Finset.mem_insert_of_mem hmarked⟩
    · exact ⟨hid, hmarked⟩

theorem unreached_remindAt {d : ℕ} (hsound : x.Sound users) (hrow : row ∈ x.keys.rows)
    (hunmarked : Unmarked days key row) (hpage : d = days → row ∉ duePage x.keys now days) :
    (∃ row' ∈ (remindAt users run now x d).keys.rows, Unmarked days key row') ∧
      ∀ e ∈ (remindAt users run now x d).sends, e.keyId = key.id → e.days = days → e ∈ x.sends := by
  constructor
  · rw [rows_remindAt hsound]
    refine ⟨_, List.mem_map.2 ⟨row, hrow, rfl⟩, ?_⟩
    split
    · rename_i hmoves
      have hne : days ≠ d := by
        rintro rfl
        exact hpage rfl hmoves.1
      refine ⟨?_, ?_⟩
      · unfold VpnKey.marked
        rw [hunmarked.1]
      · exact fun h => (Finset.mem_insert.1 h).elim hne hunmarked.2
    · exact hunmarked
  · intro e he hid hdays
    rcases mem_sends_foldl _ he with hold | ⟨-, hd, k, hk, hkid⟩
    · exact hold
    · have hd : d = days := hd.symm.trans hdays
      subst hd
      have hkrow := (mem_duePage hk).1
      obtain rfl := Rows.eq_of_key_eq hkrow hrow (hkid.symm.trans (hid.trans hunmarked.id_eq.symm))
      exact absurd hk (hpage rfl)

theorem reached_remindAt (hsound : x.Sound users) (hunmarked : Unmarked days key row)
    (hopted : users.optedOut key.ownerUserId = false) (hpage : row ∈ duePage x.keys now days) :
    Reached (remindAt users run now x days).keys (remindAt users run now x days).sends key days := by
  have howner : row.ownerUserId = key.ownerUserId := by rw [hunmarked.1]
  have hrow := (mem_duePage hpage).1
  cases hreaches : users.reaches row with
  | true =>
    refine Or.inr ?_
    rw [rows_remindAt hsound]
    refine ⟨row.marked days, List.mem_map.2 ⟨row, hrow, if_pos ⟨hpage, hreaches⟩⟩, hunmarked.id_eq, ?_⟩
    exact Finset.mem_insert_self _ _
  | false =>
    have hfails : users.delivers row.id = false := by
      simpa [Recipients.reaches, howner, hopted] using hreaches
    refine Or.inl ⟨_, mem_sends_of_fails _ nodup_duePage (fun _ hk => (mem_duePage hk).1) hsound hpage
      (by rw [howner, hopted]) hfails, hunmarked.id_eq, rfl⟩

/-! ### Runs -/

theorem countP_due_foldl_le (hsound : x.Sound users) (ds : List ℕ) :
    (ds.foldl (remindAt users run now) x).keys.rows.countP (dueBefore now' days key) ≤
      x.keys.rows.countP (dueBefore now' days key) := by
  induction ds generalizing x with
  | nil => exact le_rfl
  | cons d ds ih => exact (ih hsound.remindAt).trans (countP_due_remindAt_le hsound d)

theorem countP_unreached_foldl (hsound : x.Sound users) (ds : List ℕ) :
    (ds.foldl (remindAt users run now) x).keys.rows.countP (unreachedBefore users now' days key) =
      x.keys.rows.countP (unreachedBefore users now' days key) := by
  induction ds generalizing x with
  | nil => rfl
  | cons d ds ih => exact (ih hsound.remindAt).trans (countP_unreached_remindAt hsound d)

/-- **A run in which no page has room for the key marks one of the keys before it.** -/
theorem countP_due_foldl_lt (hsound : x.Sound users) {ds : List ℕ} (hdays : days ∈ ds)
    (hahead : 200 ≤ x.keys.rows.countP (dueBefore now days key))
    (hunreached : x.keys.rows.countP (unreachedBefore users now days key) < 200) :
    (ds.foldl (remindAt users run now) x).keys.rows.countP (dueBefore now days key) <
      x.keys.rows.countP (dueBefore now days key) := by
  induction ds generalizing x with
  | nil => cases hdays
  | cons d ds ih =>
    rw [List.foldl_cons]
    rcases List.mem_cons.1 hdays with rfl | hdays
    · exact lt_of_le_of_lt (countP_due_foldl_le hsound.remindAt ds)
        (countP_due_remindAt_lt hsound hahead hunreached)
    · have hle : (remindAt users run now x d).keys.rows.countP (dueBefore now days key) ≤
          x.keys.rows.countP (dueBefore now days key) := countP_due_remindAt_le hsound d
      rcases lt_or_ge ((remindAt users run now x d).keys.rows.countP (dueBefore now days key)) 200 with
        hlt | hge
      · exact (countP_due_foldl_le hsound.remindAt ds).trans_lt (hlt.trans_le hahead)
      · refine (ih hsound.remindAt hdays hge ?_).trans_le hle
        rw [countP_unreached_remindAt hsound]
        exact hunreached

theorem Reached.foldl (hsound : x.Sound users) (h : Reached x.keys x.sends key days) (ds : List ℕ) :
    Reached (ds.foldl (Expiry.remindAt users run now) x).keys
      (ds.foldl (Expiry.remindAt users run now) x).sends key days := by
  induction ds generalizing x with
  | nil => exact h
  | cons d ds ih => exact ih hsound.remindAt (h.remindAt hsound)

theorem unreached_foldl (hsound : x.Sound users) (hdue : key.isDue now (addDays now days) days = true)
    (hrow : row ∈ x.keys.rows) (hunmarked : Unmarked days key row) (ds : List ℕ)
    (hahead : 200 ≤ (ds.foldl (remindAt users run now) x).keys.rows.countP (dueBefore now days key)) :
    (∃ row' ∈ (ds.foldl (remindAt users run now) x).keys.rows, Unmarked days key row') ∧
      ∀ e ∈ (ds.foldl (remindAt users run now) x).sends, e.keyId = key.id → e.days = days →
        e ∈ x.sends := by
  induction ds generalizing x row with
  | nil => exact ⟨⟨row, hrow, hunmarked⟩, fun e he _ _ => he⟩
  | cons d ds ih =>
    have hfull : 200 ≤ x.keys.rows.countP (dueBefore now days key) :=
      (hahead.trans (countP_due_foldl_le hsound.remindAt ds)).trans (countP_due_remindAt_le hsound d)
    have hpage : d = days → row ∉ duePage x.keys now days := fun _ hpage =>
      absurd ((mem_duePage_iff hrow hunmarked hdue).1 hpage) (not_lt.2 hfull)
    obtain ⟨⟨row', hrow', hunmarked'⟩, hsends⟩ := @unreached_remindAt users key row now x run days d
      hsound hrow hunmarked hpage
    obtain ⟨hrows, hrest⟩ := ih hsound.remindAt hrow' hunmarked' hahead
    exact ⟨hrows, fun e he hid hdays => hsends e (hrest e he hid hdays) hid hdays⟩

theorem reached_foldl (hsound : x.Sound users) (hdue : key.isDue now (addDays now days) days = true)
    (hopted : users.optedOut key.ownerUserId = false) (hrow : row ∈ x.keys.rows)
    (hunmarked : Unmarked days key row) {ds : List ℕ} (hdays : days ∈ ds)
    (hahead : x.keys.rows.countP (dueBefore now days key) < 200) :
    Reached (ds.foldl (remindAt users run now) x).keys (ds.foldl (remindAt users run now) x).sends key
      days := by
  induction ds generalizing x row with
  | nil => cases hdays
  | cons d ds ih =>
    rw [List.foldl_cons]
    by_cases hd : d = days
    · subst hd
      exact (reached_remindAt hsound hunmarked hopted
        ((mem_duePage_iff hrow hunmarked hdue).2 hahead)).foldl hsound.remindAt ds
    · obtain ⟨⟨row', hrow', hunmarked'⟩, -⟩ := @unreached_remindAt users key row now x run days d
        hsound hrow hunmarked fun h => absurd h hd
      exact ih hsound.remindAt hrow' hunmarked' ((List.mem_cons.1 hdays).resolve_left (Ne.symm hd))
        ((countP_due_remindAt_le hsound d).trans_lt hahead)

/-! ### All runs -/

variable {times : ℕ → ℤ} {notifyDays : List ℕ} {j : ℕ}

theorem sound_start (keys : VpnKeys) : Reminding.Sound users ⟨keys, [], []⟩ := fun _ _ h => nomatch h

theorem dueBefore_mono (hle : now ≤ now') (hdue : key.isDue now (addDays now days) days = true)
    (h : dueBefore now' days key row = true) : dueBefore now days key row = true := by
  unfold dueBefore at h ⊢
  rw [Bool.and_eq_true, decide_eq_true_eq, isDue_iff] at h ⊢
  obtain ⟨hplace, hactive, ⟨t, ht, hnow, -⟩, hunmarked⟩ := h
  obtain ⟨-, ⟨u, hu, -, hdeadline⟩, -⟩ := isDue_iff.1 hdue
  refine ⟨hplace, hactive, ⟨t, ht, hle.trans_lt hnow, ?_⟩, hunmarked⟩
  have hlt := place_lt_iff.1 hplace
  rw [ht, hu] at hlt
  simp only [Option.getD_some] at hlt
  omega

theorem keys_reminderRuns : (reminderRuns users times notifyDays keys (j + 1)).1 =
    (notifyExpiringKeys users j (times j) notifyDays (reminderRuns users times notifyDays keys j).1).keys :=
  rfl

theorem countP_unreached_runs (j : ℕ) :
    (reminderRuns users times notifyDays keys j).1.rows.countP (unreachedBefore users now days key) =
      keys.rows.countP (unreachedBefore users now days key) := by
  induction j with
  | zero => rfl
  | succ j ih =>
    rw [keys_reminderRuns, ← ih]
    exact countP_unreached_foldl (sound_start _) _

theorem exists_row_foldl (hsound : x.Sound users) (ds : List ℕ) {row : VpnKey} (hrow : row ∈ x.keys.rows)
    (hkey : row = { key with expiryNotifiedDays := row.expiryNotifiedDays }) :
    ∃ row' ∈ (ds.foldl (remindAt users run now) x).keys.rows,
      row' = { key with expiryNotifiedDays := row'.expiryNotifiedDays } := by
  induction ds generalizing x row with
  | nil => exact ⟨row, hrow, hkey⟩
  | cons d ds ih =>
    rw [List.foldl_cons]
    have hmem : ∃ row' ∈ (remindAt users run now x d).keys.rows,
        row' = { key with expiryNotifiedDays := row'.expiryNotifiedDays } := by
      rw [rows_remindAt hsound]
      refine ⟨_, List.mem_map.2 ⟨row, hrow, rfl⟩, ?_⟩
      split
      · rw [hkey]
        rfl
      · exact hkey
    obtain ⟨row', hrow', hkey'⟩ := hmem
    exact ih hsound.remindAt hrow' hkey'

theorem exists_row_runs (hkey : key ∈ keys.rows) (j : ℕ) :
    ∃ row ∈ (reminderRuns users times notifyDays keys j).1.rows,
      row = { key with expiryNotifiedDays := row.expiryNotifiedDays } := by
  induction j with
  | zero => exact ⟨key, hkey, rfl⟩
  | succ j ih =>
    obtain ⟨row, hrow, heq⟩ := ih
    exact exists_row_foldl (sound_start _) _ hrow heq

theorem unreached_runs (hmono : Monotone times) (hkey : key ∈ keys.rows)
    (hdue : ∀ j, key.isDue (times j) (addDays (times j) days) days = true)
    (hahead : ∀ i ≤ j, 200 ≤ (reminderRuns users times notifyDays keys i).1.rows.countP
      (dueBefore (times i) days key)) :
    (∃ row ∈ (reminderRuns users times notifyDays keys j).1.rows, Unmarked days key row) ∧
      ∀ e ∈ (reminderRuns users times notifyDays keys j).2, e.keyId = key.id → e.days ≠ days := by
  induction j with
  | zero => exact ⟨⟨key, hkey, unmarked_self (hdue 0)⟩, nofun⟩
  | succ j ih =>
    obtain ⟨⟨row, hrow, hunmarked⟩, hsends⟩ := ih fun i hi => hahead i (Nat.le_succ_of_le hi)
    have hfull : 200 ≤ (notifyExpiringKeys users j (times j) notifyDays
        (reminderRuns users times notifyDays keys j).1).keys.rows.countP
          (dueBefore (times j) days key) := by
      refine (hahead (j + 1) le_rfl).trans (List.countP_mono_left fun r _ h => ?_)
      exact dueBefore_mono (hmono (Nat.le_succ j)) (hdue j) h
    obtain ⟨hrows, hnew⟩ := unreached_foldl (sound_start _) (hdue j) hrow hunmarked _ hfull
    refine ⟨hrows, fun e he hid hdays => ?_⟩
    rcases List.mem_append.1 he with hold | he
    · exact hsends e hold hid hdays
    · exact nomatch hnew e he hid hdays

/-- **A key that is due in all runs, and whose owner did not opt out, is reached in the end exactly when in
some run fewer than two hundred of the due keys before it belong to users who opted out or do not get the
message.** -/
theorem reached_iff (hmono : Monotone times) (hdays : days ∈ notifyDays) (hkey : key ∈ keys.rows)
    (hdue : ∀ j, key.isDue (times j) (addDays (times j) days) days = true)
    (hopted : users.optedOut key.ownerUserId = false) :
    (∃ n, Reached (reminderRuns users times notifyDays keys n).1
      (reminderRuns users times notifyDays keys n).2 key days) ↔
      ∃ j, keys.rows.countP (unreachedBefore users (times j) days key) < 200 := by
  let ahead j := (reminderRuns users times notifyDays keys j).1.rows.countP
    (dueBefore (times j) days key)
  have hsorted : days ∈ notifyDays.insertionSort (· ≤ ·) := (List.mem_insertionSort _).2 hdays
  have hserved : (∃ j, ahead j < 200) ↔
      ∃ j, keys.rows.countP (unreachedBefore users (times j) days key) < 200 := by
    refine served_iff (fun j => ?_) (fun j => ?_) fun j hahead hstuck => ?_
    · rw [← @countP_unreached_runs users keys key (times j) days times notifyDays j]
      refine List.countP_mono_left fun row _ h => ?_
      simp only [unreachedBefore, Bool.and_eq_true] at h
      exact h.2
    · refine List.countP_mono_left fun row _ h => ?_
      simp only [unreachedBefore, Bool.and_eq_true] at h ⊢
      exact ⟨h.1, dueBefore_mono (hmono (Nat.le_succ j)) (hdue j) h.2⟩
    · refine lt_of_le_of_lt (List.countP_mono_left fun row _ h =>
        dueBefore_mono (hmono (Nat.le_succ j)) (hdue j) h) ?_
      refine countP_due_foldl_lt (sound_start _) hsorted hahead ?_
      rw [countP_unreached_runs j]
      exact hstuck
  refine Iff.trans ?_ hserved
  constructor
  · rintro ⟨n, hreached⟩
    by_contra hnever
    push Not at hnever
    obtain ⟨⟨row, hrow, hunmarked⟩, hsends⟩ := unreached_runs hmono hkey hdue fun i _ => hnever i
    rcases hreached with ⟨e, he, hid, hd⟩ | ⟨row', hrow', hid, hmarked⟩
    · exact hsends e he hid hd
    · obtain rfl := Rows.eq_of_key_eq hrow' hrow (hid.trans hunmarked.id_eq.symm)
      exact hunmarked.2 hmarked
  · rintro ⟨j, hj⟩
    obtain ⟨row, hrow, heq⟩ := @exists_row_runs users keys key times notifyDays hkey j
    by_cases hmarked : days ∈ row.expiryNotifiedDays
    · exact ⟨j, Or.inr ⟨row, hrow, by rw [heq], hmarked⟩⟩
    · have hreached := @reached_foldl users key row (times j) _ j days (sound_start _) (hdue j) hopted
        hrow ⟨heq, hmarked⟩ _ hsorted hj
      refine ⟨j + 1, hreached.imp_left ?_⟩
      rintro ⟨e, he, hsent⟩
      exact ⟨e, List.mem_append_right _ he, hsent⟩

end VpnBot.Expiry
