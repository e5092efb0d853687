import VpnBot.Expiry.Service

/-!
# Cycles of the expiry job

A cycle of `revoke_expired_keys` revokes those keys of its page whose call succeeds, and leaves all others
as they are (`rows_revokeExpiredKeys`).  The page is always the first hundred keys in the order of the
expiry, and a key whose call fails is `ACTIVE` again; so an expired key is revoked in the end exactly when
fewer than a hundred of the expired keys before it fail (`revoked_iff`).
-/

namespace VpnBot.Expiry

open Sys

variable {backends : Backends} {keys : VpnKeys} {key row : VpnKey} {now : ℤ} {keyId : ℕ}

/-! ### One key -/

/-- The call for the key succeeds. -/
def Backends.succeeds (backends : Backends) (key : VpnKey) : Bool :=
  match key.keyType with
  | .xray => backends.mutationAllowed .xray && backends.removes key.id
  | .hysteria2 => backends.hysteria
  | .awg => backends.mutationAllowed .awg && backends.removes key.id

def VpnKey.revoked (key : VpnKey) : VpnKey := { key with status := .revoked }

theorem VpnKey.id_revoked (key : VpnKey) : key.revoked.id = key.id := rfl

theorem find?_of_mem (h : key ∈ keys.rows) : keys.find? key.id = some key :=
  Rows.find?_eq_some_iff.2 ⟨h, rfl⟩

theorem setStatus_setStatus {status status' : VpnKeyStatus} :
    setStatus (setStatus keys keyId status) keyId status' = setStatus keys keyId status' := by
  refine Rows.ext_rows ?_ rfl
  show (keys.rows.map _).map _ = keys.rows.map _
  rw [List.map_map]
  refine List.map_congr_left fun row _ => ?_
  rw [Function.comp_apply]
  by_cases hid : row.id = keyId
  · rw [if_pos hid, if_pos hid, if_pos hid]
  · rw [if_neg hid, if_neg hid]

theorem setStatus_self (h : keys.find? keyId = some key) : setStatus keys keyId key.status = keys := by
  refine Rows.ext_rows ?_ rfl
  refine (List.map_congr_left fun row hrow => ?_).trans (List.map_id _)
  split
  · rename_i hid
    rw [← hid, find?_of_mem hrow] at h
    cases h
    rfl
  · rfl

theorem revokeKeySystem_eq {keyType : VpnKeyType} (hkey : key ∈ keys.rows) (hactive : key.status = .active)
    (htype : key.keyType = keyType) :
    revokeKeySystem backends keyType keys key.id =
      if backends.mutationAllowed keyType && backends.removes key.id
      then (setStatus keys key.id .revoked, true) else (keys, false) := by
  have hfind := find?_of_mem hkey
  have hpending : (setStatus keys key.id .pendingRevoke).find? key.id =
      some { key with status := .pendingRevoke } := by
    rw [setStatus, Rows.find?_update_self, hfind]
    rfl
  have hback : setStatus keys key.id .active = keys := by
    rw [← hactive]
    exact setStatus_self hfind
  cases hallowed : backends.mutationAllowed keyType with
  | false => simp [revokeKeySystem, hallowed]
  | true =>
    cases hremoves : backends.removes key.id with
    | false =>
      simp [revokeKeySystem, hallowed, hfind, htype, hactive, VpnKeyStatus.accessMayExist, hremoves,
        setStatus_setStatus, hback]
    | true =>
      simp [revokeKeySystem, hallowed, hfind, htype, hactive, VpnKeyStatus.accessMayExist, hremoves,
        markRevoked, hpending, setStatus_setStatus]

theorem revokeHysteria2KeySystem_eq (hkey : key ∈ keys.rows) (hactive : key.status = .active)
    (htype : key.keyType = .hysteria2) :
    revokeHysteria2KeySystem keys key.id = (setStatus keys key.id .revoked, true) := by
  have hfind := find?_of_mem hkey
  simp [revokeHysteria2KeySystem, hfind, htype, hactive, hysteria2Revocable, markRevoked]

/-- **The call for an active key revokes it, or leaves the table as it is.** -/
theorem revokeSystem_eq (hkey : key ∈ keys.rows) (hactive : key.status = .active) :
    revokeSystem backends keys key =
      if backends.succeeds key then (setStatus keys key.id .revoked, true) else (keys, false) := by
  unfold revokeSystem Backends.succeeds
  cases htype : key.keyType with
  | xray => exact revokeKeySystem_eq hkey hactive htype
  | awg => exact revokeKeySystem_eq hkey hactive htype
  | hysteria2 =>
    show (if backends.hysteria then revokeHysteria2KeySystem keys key.id else (keys, false)) = _
    rw [revokeHysteria2KeySystem_eq hkey hactive htype]

/-! ### One cycle -/

theorem isExpired_iff : key.isExpired now = true ↔
    key.status = .active ∧ ∃ t, key.expiresAt = some t ∧ t ≤ now := by
  unfold VpnKey.isExpired
  cases key.expiresAt <;> simp

theorem mem_listExpiredActive {limit : ℕ} (h : key ∈ listExpiredActive keys now limit) :
    key ∈ keys.rows ∧ key.isExpired now = true :=
  List.mem_filter.1 (mem_of_mem_firstBy h)

theorem nodup_ids : (keys.rows.map VpnKey.id).Nodup :=
  List.pairwise_map.2 (keys.sorted.imp fun h => Nat.ne_of_lt h)

theorem nodup_places (p : VpnKey → Bool) : ((keys.rows.filter p).map VpnKey.place).Nodup := by
  refine List.pairwise_map.2 ((keys.sorted.filter p).imp fun hlt heq => ?_)
  exact Nat.ne_of_lt hlt (congrArg (fun place => (ofLex place).2) heq)

theorem nodup_ids_firstBy (p : VpnKey → Bool) (n : ℕ) :
    ((firstBy VpnKey.place n (keys.rows.filter p)).map VpnKey.id).Nodup :=
  nodup_map_firstBy (nodup_ids.sublist (List.filter_sublist.map _))

theorem foldl_revokeSystem (page : List VpnKey) (count : ℕ) (hnodup : (page.map VpnKey.id).Nodup)
    (hmem : ∀ key ∈ page, key ∈ keys.rows ∧ key.status = .active) :
    (page.foldl (fun done key =>
      let call := revokeSystem backends done.1 key
      (call.1, if call.2 then done.2 + 1 else done.2)) (keys, count)).1 =
      keys.sweep backends.succeeds VpnKey.revoked VpnKey.id_revoked page := by
  induction page generalizing keys count with
  | nil => rfl
  | cons key page ih =>
    obtain ⟨hnew, hnodup⟩ := List.nodup_cons.1 hnodup
    obtain ⟨hkey, hactive⟩ := hmem key List.mem_cons_self
    rw [List.foldl_cons, Rows.sweep_cons]
    simp only [revokeSystem_eq hkey hactive]
    cases hsucceeds : backends.succeeds key with
    | false => exact ih _ hnodup fun k hk => hmem k (List.mem_cons_of_mem key hk)
    | true =>
      refine ih _ hnodup fun k hk => ⟨?_, (hmem k (List.mem_cons_of_mem key hk)).2⟩
      refine (Rows.mem_update (t := keys) VpnKey.id_revoked).2 (Or.inl ⟨(hmem k (List.mem_cons_of_mem key hk)).1, ?_⟩)
      exact fun hid => hnew (List.mem_map.2 ⟨k, hk, hid⟩)

theorem nodup_page : ((listExpiredActive keys now 100).map VpnKey.id).Nodup := nodup_ids_firstBy _ _

theorem keys_revokeExpiredKeys : (revokeExpiredKeys backends now keys).1 =
    keys.sweep backends.succeeds VpnKey.revoked VpnKey.id_revoked (listExpiredActive keys now 100) :=
  foldl_revokeSystem _ _ nodup_page fun _ hkey =>
    ⟨(mem_listExpiredActive hkey).1, (isExpired_iff.1 (mem_listExpiredActive hkey).2).1⟩

/-- **What a cycle does to the rows.** -/
theorem rows_revokeExpiredKeys : (revokeExpiredKeys backends now keys).1.rows =
    keys.rows.map fun key => if key ∈ listExpiredActive keys now 100 ∧ backends.succeeds key then key.revoked
      else key := by
  rw [keys_revokeExpiredKeys]
  exact Rows.rows_sweep _ _ nodup_page fun key hkey => (mem_listExpiredActive hkey).1

theorem next_revokeExpiredKeys : (revokeExpiredKeys backends now keys).1.next = keys.next := by
  rw [keys_revokeExpiredKeys]
  exact Rows.sweep_next _ _ _

/-! ### All cycles -/

theorem place_lt_iff : row.place < key.place ↔
    row.expiresAt.getD 0 < key.expiresAt.getD 0 ∨
      row.expiresAt.getD 0 = key.expiresAt.getD 0 ∧ row.id < key.id := Prod.Lex.lt_iff

theorem isExpired_of_place_lt {now' : ℤ} (hkey : key.isExpired now = true) (hle : now ≤ now')
    (hlt : row.place < key.place) : row.isExpired now' = row.isExpired now := by
  obtain ⟨-, t, ht, htnow⟩ := isExpired_iff.1 hkey
  have hbefore : ∀ u, row.expiresAt = some u → u ≤ now := by
    intro u hu
    have := place_lt_iff.1 hlt
    rw [hu, ht] at this
    simp only [Option.getD_some] at this
    omega
  rw [Bool.eq_iff_iff, isExpired_iff, isExpired_iff]
  refine and_congr_right fun _ => exists_congr fun u => and_congr_right fun hu => ?_
  exact iff_of_true ((hbefore u hu).trans hle) (hbefore u hu)

def expiredBefore (now : ℤ) (key row : VpnKey) : Bool := row.place < key.place && row.isExpired now

/-- One of them whose call fails. -/
def failingBefore (backends : Backends) (now : ℤ) (key row : VpnKey) : Bool :=
  !backends.succeeds row && expiredBefore now key row

variable {times : ℕ → ℤ} {j : ℕ}

theorem rows_revokeCycles : (revokeCycles backends times keys (j + 1)).rows =
    (revokeCycles backends times keys j).rows.map fun row =>
      if row ∈ listExpiredActive (revokeCycles backends times keys j) (times j) 100 ∧ backends.succeeds row
      then row.revoked else row := rows_revokeExpiredKeys

theorem mem_page_iff (hkey : key ∈ keys.rows) (hexpired : key.isExpired now = true) :
    key ∈ listExpiredActive keys now 100 ↔ keys.rows.countP (expiredBefore now key) < 100 := by
  unfold listExpiredActive
  rw [mem_firstBy_iff (nodup_places _), List.countP_filter]
  exact and_iff_right (List.mem_filter.2 ⟨hkey, hexpired⟩)

theorem expiredBefore_eq (hmono : Monotone times) (hexpired : key.isExpired (times 0) = true) (j : ℕ) :
    expiredBefore (times j) key = expiredBefore (times 0) key := by
  funext row
  unfold expiredBefore
  by_cases hlt : row.place < key.place
  · rw [isExpired_of_place_lt hexpired (hmono (Nat.zero_le j)) hlt]
  · simp [hlt]

theorem countP_failing (j : ℕ) :
    (revokeCycles backends times keys j).rows.countP (failingBefore backends now key) =
      keys.rows.countP (failingBefore backends now key) := by
  induction j with
  | zero => rfl
  | succ j ih =>
    rw [← ih, rows_revokeCycles, List.countP_map]
    refine List.countP_congr fun row _ => ?_
    rw [Function.comp_apply]
    split
    · rename_i hmoves
      have : backends.succeeds row.revoked = true := hmoves.2
      simp [failingBefore, this, hmoves.2]
    · exact Iff.rfl

theorem countP_expired_lt
    (hahead : 100 ≤ keys.rows.countP (expiredBefore now key))
    (hfailing : keys.rows.countP (failingBefore backends now key) < 100) :
    (revokeExpiredKeys backends now keys).1.rows.countP (expiredBefore now key) <
      keys.rows.countP (expiredBefore now key) := by
  obtain ⟨row, hpage, hsucceeds, hlt⟩ : ∃ row ∈ listExpiredActive keys now 100,
      (!backends.succeeds row) = false ∧ row.place < key.place := by
    refine exists_moving (nodup_places _) ?_ ?_
    · rw [List.countP_filter]
      exact hahead
    · rw [List.countP_filter]
      refine lt_of_le_of_lt (List.countP_mono_left fun row _ h => ?_) hfailing
      simpa [failingBefore, expiredBefore, and_assoc] using h
  have hsucceeds : backends.succeeds row = true := by simpa using hsucceeds
  obtain ⟨hrow, hexpired⟩ := mem_listExpiredActive hpage
  rw [rows_revokeExpiredKeys, List.countP_map]
  refine countP_lt_of_mem (fun r _ h => ?_) hrow ?_ ?_
  · rw [Function.comp_apply] at h
    split at h
    · simp [expiredBefore, VpnKey.isExpired, VpnKey.revoked] at h
    · exact h
  · simp [expiredBefore, hlt, hexpired]
  · rw [Function.comp_apply, if_pos ⟨hpage, hsucceeds⟩]
    simp [expiredBefore, VpnKey.isExpired, VpnKey.revoked]

theorem mem_revokeCycles (hmono : Monotone times) (hkey : key ∈ keys.rows)
    (hexpired : key.isExpired (times 0) = true)
    (hahead : ∀ i < j, 100 ≤ (revokeCycles backends times keys i).rows.countP
      (expiredBefore (times 0) key)) : key ∈ (revokeCycles backends times keys j).rows := by
  induction j with
  | zero => exact hkey
  | succ j ih =>
    have hmem := ih fun i hi => hahead i (Nat.lt_succ_of_lt hi)
    have hnow : key.isExpired (times j) = true := by
      obtain ⟨hactive, t, ht, hle⟩ := isExpired_iff.1 hexpired
      exact isExpired_iff.2 ⟨hactive, t, ht, hle.trans (hmono (Nat.zero_le j))⟩
    rw [rows_revokeCycles]
    refine List.mem_map.2 ⟨key, hmem, if_neg fun h => ?_⟩
    have hlt := (mem_page_iff hmem hnow).1 h.1
    rw [expiredBefore_eq hmono hexpired] at hlt
    exact absurd (hahead j (Nat.lt_succ_self j)) (not_le.2 hlt)

/-- **An expired key whose call succeeds is revoked in the end exactly when fewer than a hundred of the
expired keys before it fail.** -/
theorem revoked_iff (hmono : Monotone times) (hkey : key ∈ keys.rows)
    (hexpired : key.isExpired (times 0) = true) (hsucceeds : backends.succeeds key = true) :
    (∃ n row, (revokeCycles backends times keys n).find? key.id = some row ∧ row.status = .revoked) ↔
      keys.rows.countP (failingBefore backends (times 0) key) < 100 := by
  have hsame := expiredBefore_eq hmono hexpired
  have hfailing : ∀ j, failingBefore backends (times j) key = failingBefore backends (times 0) key := by
    intro j
    funext row
    rw [failingBefore, hsame j]
    rfl
  let ahead j := (revokeCycles backends times keys j).rows.countP (expiredBefore (times 0) key)
  let stuck j := (revokeCycles backends times keys j).rows.countP (failingBefore backends (times 0) key)
  have hserved : (∃ j, ahead j < 100) ↔ ∃ j, stuck j < 100 := by
    refine served_iff (fun j => ?_) (fun j => ?_) fun j hahead hstuck => ?_
    · refine List.countP_mono_left fun row _ h => ?_
      simp only [failingBefore, Bool.and_eq_true] at h
      exact h.2
    · exact ((countP_failing (j + 1)).trans (countP_failing j).symm).le
    · have hlt := @countP_expired_lt backends (revokeCycles backends times keys j) key (times j)
      rw [hsame j, hfailing j] at hlt
      exact hlt hahead hstuck
  have hstuck : (∃ j, stuck j < 100) ↔ stuck 0 < 100 := by
    refine ⟨fun ⟨j, hj⟩ => ?_, fun h => ⟨0, h⟩⟩
    exact lt_of_eq_of_lt (countP_failing j).symm hj
  refine Iff.trans ?_ (hserved.trans hstuck)
  constructor
  · rintro ⟨n, row, hrow, hrevoked⟩
    by_contra hnever
    push Not at hnever
    have hmem : key ∈ (revokeCycles backends times keys n).rows :=
      mem_revokeCycles hmono hkey hexpired fun i _ => hnever i
    rw [find?_of_mem hmem] at hrow
    cases hrow
    rw [(isExpired_iff.1 hexpired).1] at hrevoked
    cases hrevoked
  · rintro hreached
    obtain ⟨j, hj, hfirst⟩ : ∃ j, ahead j < 100 ∧ ∀ i < j, 100 ≤ ahead i :=
      ⟨Nat.find hreached, Nat.find_spec hreached, fun i hi => not_lt.1 (Nat.find_min hreached hi)⟩
    have hmem := mem_revokeCycles hmono hkey hexpired hfirst
    have hnow : key.isExpired (times j) = true := by
      obtain ⟨hactive, t, ht, hle⟩ := isExpired_iff.1 hexpired
      exact isExpired_iff.2 ⟨hactive, t, ht, hle.trans (hmono (Nat.zero_le j))⟩
    have hpage : key ∈ listExpiredActive (revokeCycles backends times keys j) (times j) 100 := by
      rw [mem_page_iff hmem hnow, hsame j]
      exact hj
    refine ⟨j + 1, key.revoked, Rows.find?_eq_some_iff.2 ⟨?_, rfl⟩, rfl⟩
    rw [rows_revokeCycles]
    exact List.mem_map.2 ⟨key, hmem, if_pos ⟨hpage, hsucceeds⟩⟩

end VpnBot.Expiry
