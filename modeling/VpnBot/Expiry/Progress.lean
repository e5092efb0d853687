import VpnBot.Expiry.ReminderRuns

/-!
# Progress and reminders

Over all runs of the jobs, with rows that come, change and go in between, no key gets two reminders in one run
or two of one threshold: a reminder marks the row, and the query leaves out rows that are marked
(`Recorded`).

Both jobs can starve a key.  A page of keys whose call fails, or whose owners opted out, is the first page
again in the next cycle, so that the keys behind it are never tried (`expired_and_due_key_starve`);
`key_expiry_progress` says exactly when.
-/

namespace VpnBot.Expiry

open Sys

variable {users : Recipients} {keys keys' : VpnKeys} {key row : VpnKey} {now : ℤ} {x : Reminding}
  {run runs days : ℕ} {sends old : List Send} {s s' : State}

/-! ### What is recorded about the reminders -/

/-- Two reminders of one key are of different runs and of different thresholds. -/
def Apart (e e' : Send) : Prop := e.keyId = e'.keyId → e.run ≠ e'.run ∧ e.days ≠ e'.days

/-- The invariant of all runs. -/
structure Recorded (sends : List Send) (runs : ℕ) (keys : VpnKeys) : Prop where
  run : ∀ e ∈ sends, e.run < runs
  id : ∀ e ∈ sends, e.keyId < keys.next
  marked : ∀ e ∈ sends, e.delivered = true → ∀ row ∈ keys.rows, row.id = e.keyId →
    e.days ∈ row.expiryNotifiedDays
  once : (sends.filter Send.delivered).Pairwise Apart

theorem Recorded.mono (h : Recorded sends runs keys) (hnext : keys.next ≤ keys'.next)
    (hrows : ∀ row ∈ keys'.rows, keys.next ≤ row.id ∨ ∃ old ∈ keys.rows, old.id = row.id ∧
      old.expiryNotifiedDays ⊆ row.expiryNotifiedDays) : Recorded sends runs keys' where
  run := h.run
  id e he := (h.id e he).trans_le hnext
  marked e he hdelivered row hrow hid := by
    rcases hrows row hrow with hnew | ⟨old, hold, holdid, hsubset⟩
    · exact absurd (h.id e he) (not_lt.2 (hid ▸ hnew))
    · exact hsubset (h.marked e he hdelivered old hold (holdid.trans hid))
  once := h.once

theorem Recorded.mark (h : Recorded sends runs keys) (id days : ℕ) :
    Recorded sends runs (markExpiryNotified keys id days) := by
  refine h.mono le_rfl fun row hrow => Or.inr ?_
  rcases mem_markExpiryNotified hrow with ⟨hrow, -⟩ | ⟨old, hold, -, rfl⟩
  · exact ⟨row, hrow, rfl, Finset.Subset.refl _⟩
  · exact ⟨old, hold, rfl, Finset.subset_insert _ _⟩

theorem Recorded.fail (h : Recorded sends (run + 1) keys) (hkey : key ∈ keys.rows) :
    Recorded (sends ++ [⟨run, key.id, days, false⟩]) (run + 1) keys where
  run e he := by
    rcases List.mem_append.1 he with hold | hnew
    · exact h.run e hold
    · rw [List.mem_singleton.1 hnew]
      exact Nat.lt_succ_self run
  id e he := by
    rcases List.mem_append.1 he with hold | hnew
    · exact h.id e hold
    · rw [List.mem_singleton.1 hnew]
      exact keys.below key hkey
  marked e he hdelivered := by
    rcases List.mem_append.1 he with hold | hnew
    · exact h.marked e hold hdelivered
    · rw [List.mem_singleton.1 hnew] at hdelivered
      cases hdelivered
  once := by
    rw [List.filter_append]
    simpa using h.once

theorem Recorded.deliver (h : Recorded sends (run + 1) keys) (hkey : key ∈ keys.rows)
    (hunmarked : days ∉ key.expiryNotifiedDays)
    (hnotTold : ∀ e ∈ sends, e.delivered = true → e.run = run → e.keyId ≠ key.id) :
    Recorded (sends ++ [⟨run, key.id, days, true⟩]) (run + 1)
      (markExpiryNotified keys key.id days) where
  run e he := by
    rcases List.mem_append.1 he with hold | hnew
    · exact h.run e hold
    · rw [List.mem_singleton.1 hnew]
      exact Nat.lt_succ_self run
  id e he := by
    rcases List.mem_append.1 he with hold | hnew
    · exact h.id e hold
    · rw [List.mem_singleton.1 hnew]
      exact keys.below key hkey
  marked e he hdelivered row hrow hid := by
    rcases List.mem_append.1 he with hold | hnew
    · exact (h.mark key.id days).marked e hold hdelivered row hrow hid
    · rw [List.mem_singleton.1 hnew] at hid ⊢
      rcases mem_markExpiryNotified hrow with ⟨-, hne⟩ | ⟨old, -, -, rfl⟩
      · exact absurd hid hne
      · exact Finset.mem_insert_self _ _
  once := by
    rw [List.filter_append]
    refine List.pairwise_append.2 ⟨h.once, by simp, fun e he e' he' hid => ?_⟩
    obtain ⟨he, hdelivered⟩ := List.mem_filter.1 he
    obtain rfl : e' = ⟨run, key.id, days, true⟩ := by simpa using he'
    refine ⟨fun hrun => hnotTold e he hdelivered hrun hid, ?_⟩
    rintro rfl
    exact hunmarked (h.marked e he hdelivered key hkey hid.symm)

/-! ### Passes and runs -/

/-- A run under way: all messages so far are recorded, and those of the run are in `notified_this_run`. -/
structure Logged (old : List Send) (run : ℕ) (x : Reminding) : Prop where
  recorded : Recorded (old ++ x.sends) (run + 1) x.keys
  told : ∀ e ∈ old ++ x.sends, e.delivered = true → e.run = run → e.keyId ∈ x.notifiedThisRun

theorem Logged.remindKey (h : Logged old run x) (hkey : key ∈ x.keys.rows)
    (hunmarked : days ∉ key.expiryNotifiedDays) :
    Logged old run (Expiry.remindKey users run days x key) := by
  unfold Expiry.remindKey
  split
  · exact ⟨h.recorded.mark _ _, h.told⟩
  · rename_i hnotified
    split
    · exact h
    · split
      · constructor
        · show Recorded (old ++ (x.sends ++ _)) _ _
          rw [← List.append_assoc]
          refine h.recorded.deliver hkey hunmarked fun e he hdelivered hrun hid => hnotified ?_
          exact hid ▸ h.told e he hdelivered hrun
        · intro e he hdelivered hrun
          rw [← List.append_assoc] at he
          rcases List.mem_append.1 he with hold | hnew
          · exact List.mem_cons_of_mem _ (h.told e hold hdelivered hrun)
          · rw [List.mem_singleton.1 hnew]
            exact List.mem_cons_self
      · constructor
        · show Recorded (old ++ (x.sends ++ _)) _ _
          rw [← List.append_assoc]
          exact h.recorded.fail hkey
        · intro e he hdelivered hrun
          rw [← List.append_assoc] at he
          rcases List.mem_append.1 he with hold | hnew
          · exact h.told e hold hdelivered hrun
          · rw [List.mem_singleton.1 hnew] at hdelivered
            cases hdelivered

theorem Logged.pass (h : Logged old run x) (page : List VpnKey) (hnodup : (page.map VpnKey.id).Nodup)
    (hmem : ∀ key ∈ page, key ∈ x.keys.rows ∧ days ∉ key.expiryNotifiedDays) :
    Logged old run (page.foldl (Expiry.remindKey users run days) x) := by
  induction page generalizing x with
  | nil => exact h
  | cons key page ih =>
    obtain ⟨hnew, hnodup⟩ := List.nodup_cons.1 hnodup
    obtain ⟨hkey, hunmarked⟩ := hmem key List.mem_cons_self
    refine ih (h.remindKey hkey hunmarked) hnodup fun k hk => ?_
    obtain ⟨hrow, hk'⟩ := hmem k (List.mem_cons_of_mem key hk)
    exact ⟨mem_remindKey_of_ne hrow fun hid => hnew (List.mem_map.2 ⟨k, hk, hid⟩), hk'⟩

theorem Logged.foldl (h : Logged old run x) (ds : List ℕ) :
    Logged old run (ds.foldl (remindAt users run now) x) := by
  induction ds generalizing x with
  | nil => exact h
  | cons d ds ih =>
    refine ih (h.pass _ nodup_duePage fun key hkey => ?_)
    obtain ⟨hrow, hdue⟩ := mem_duePage hkey
    exact ⟨hrow, (isDue_iff.1 hdue).2.2⟩

theorem Recorded.notify (h : Recorded sends run keys) (users : Recipients) (now : ℤ)
    (notifyDays : List ℕ) : Recorded (sends ++ (notifyExpiringKeys users run now notifyDays keys).sends)
      (run + 1) (notifyExpiringKeys users run now notifyDays keys).keys := by
  have hstart : Logged sends run ⟨keys, [], []⟩ := by
    constructor
    · rw [List.append_nil]
      exact ⟨fun e he => (h.run e he).trans (Nat.lt_succ_self run), h.id, h.marked, h.once⟩
    · intro e he _ hrun
      rw [List.append_nil] at he
      exact absurd hrun (Nat.ne_of_lt (h.run e he))
  exact (hstart.foldl _).recorded

def State.Tracked (s : State) : Prop := Recorded s.sends s.runs s.keys

/-- **Every step keeps the record.** -/
theorem State.Tracked.step {a : Action} (h : s.Tracked) (hstep : Expiry.step s a = some s') :
    s'.Tracked := by
  cases a with
  | notify users now notifyDays =>
    cases hstep
    exact Recorded.notify h users now notifyDays
  | revoke backends now =>
    cases hstep
    refine Recorded.mono h ?_ fun row hrow => Or.inr ?_
    · show s.keys.next ≤ (revokeExpiredKeys backends now s.keys).1.next
      rw [next_revokeExpiredKeys]
    · rw [rows_revokeExpiredKeys] at hrow
      obtain ⟨old, hold, rfl⟩ := List.mem_map.1 hrow
      refine ⟨old, hold, ?_⟩
      split <;> exact ⟨rfl, Finset.Subset.refl _⟩
  | insert ownerUserId keyType status expiresAt =>
    cases hstep
    refine Recorded.mono h (Nat.le_succ _) fun row hrow => ?_
    rcases (Rows.mem_insert rfl).1 hrow with hold | rfl
    · exact Or.inr ⟨row, hold, rfl, Finset.Subset.refl _⟩
    · exact Or.inl le_rfl
  | setStatus keyId status =>
    cases hstep
    refine Recorded.mono h le_rfl fun row hrow => Or.inr ?_
    have hrow : row ∈ (setStatus s.keys keyId status).rows := hrow
    rw [setStatus, Rows.mem_update] at hrow
    rcases hrow with ⟨hold, -⟩ | ⟨old, hold, -, rfl⟩
    · exact ⟨row, hold, rfl, Finset.Subset.refl _⟩
    · exact ⟨old, hold, rfl, Finset.Subset.refl _⟩
  | delete keyId =>
    cases hstep
    refine Recorded.mono h le_rfl fun row hrow => Or.inr ?_
    exact ⟨row, (Rows.mem_delete.1 hrow).1, rfl, Finset.Subset.refl _⟩

/-- The jobs before their first run, on an empty table. -/
def State.start : State := ⟨.empty, [], 0⟩

/-- **No key gets two reminders in one run or two of one threshold.** -/
theorem apart_of_run {as : List Action} (hrun : runFrom step .start as = some s) :
    (s.sends.filter Send.delivered).Pairwise Apart := by
  have hstart : State.start.Tracked := ⟨nofun, nofun, nofun, .nil⟩
  have hall : Allowed step (fun _ _ => True) State.start as := allowed_of_forall (fun _ _ _ => trivial) _
  have htracked : s.Tracked :=
    invariant_of_allowed (fun _ _ _ h _ hstep => State.Tracked.step h hstep) hstart hall hrun
  exact htracked.once

/-! ### Progress -/

/-- **When the jobs make progress.**  Of the expired keys whose call succeeds a key is revoked in the end exactly
when fewer than a hundred of those before it fail in every cycle.  A key that is due in all runs, and
whose owner did not opt out, is reached in the end exactly when in some run fewer than two hundred of
the due keys before it cannot be reached.  No key gets two reminders in one run or two of one threshold. -/
theorem key_expiry_progress (times : ℕ → ℤ) (keys : VpnKeys) :
    (∀ backends : Backends, ∀ key ∈ keys.rows, Monotone times →
      key.isExpired (times 0) = true → backends.succeeds key = true →
      ((∃ n row, (revokeCycles backends times keys n).find? key.id = some row ∧ row.status = .revoked) ↔
        keys.rows.countP (failingBefore backends (times 0) key) < 100)) ∧
    (∀ (users : Recipients) (notifyDays : List ℕ), ∀ key ∈ keys.rows, ∀ days ∈ notifyDays, Monotone times →
      (∀ j, key.isDue (times j) (addDays (times j) days) days = true) →
      users.optedOut key.ownerUserId = false →
      ((∃ n, Reached (reminderRuns users times notifyDays keys n).1
        (reminderRuns users times notifyDays keys n).2 key days) ↔
        ∃ j, keys.rows.countP (unreachedBefore users (times j) days key) < 200)) ∧
    ∀ (as : List Action) (s : State), runFrom step .start as = some s →
      (s.sends.filter Send.delivered).Pairwise Apart :=
  ⟨fun _ _ hkey hmono hexpired hsucceeds => revoked_iff hmono hkey hexpired hsucceeds,
    fun _ _ _ hkey _ hdays hmono hdue hopted => reached_iff hmono hdays hkey hdue hopted,
    fun _ _ hrun => apart_of_run hrun⟩

/-- A table of active keys with the ids from 1 to `n`, which expire at the time 0; the owner of each is its
id. -/
def keysUntil (n : ℕ) (keyType : ℕ → VpnKeyType) : VpnKeys where
  rows := (List.range' 1 n).map fun i => ⟨i, i, keyType i, .active, some 0, ∅⟩
  next := n + 1
  sorted := List.pairwise_map.2 List.pairwise_lt_range'
  below := by
    intro row hrow
    obtain ⟨i, hi, rfl⟩ := List.mem_map.1 hrow
    have := List.mem_range'_1.1 hi
    show i < n + 1
    omega

/-- The backend of Xray is degraded, and the others are not. -/
def xrayDegraded : Backends := ⟨fun keyType => keyType ≠ .xray, fun _ => true, true⟩

/-- The owners up to `n` opted out. -/
def optedOutUntil (n : ℤ) : Recipients := ⟨fun user => user ≤ n, fun _ => true⟩

/-- A hundred expired keys of a degraded backend keep an expired key of another backend alive, and two hundred
keys of users who opted out keep the reminder of another user back. -/
theorem expired_and_due_key_starve :
    (¬ ∀ (backends : Backends) (times : ℕ → ℤ) (keys : VpnKeys), ∀ key ∈ keys.rows, Monotone times →
      key.isExpired (times 0) = true → backends.succeeds key = true →
      ∃ n row, (revokeCycles backends times keys n).find? key.id = some row ∧ row.status = .revoked) ∧
    ¬ ∀ (users : Recipients) (times : ℕ → ℤ) (notifyDays : List ℕ) (keys : VpnKeys), ∀ key ∈ keys.rows,
      ∀ days ∈ notifyDays, Monotone times →
      (∀ j, key.isDue (times j) (addDays (times j) days) days = true) →
      users.optedOut key.ownerUserId = false →
      ∃ n, Reached (reminderRuns users times notifyDays keys n).1
        (reminderRuns users times notifyDays keys n).2 key days := by
  constructor
  · intro hclaim
    have hrevoked := hclaim xrayDegraded (fun _ => 0) (keysUntil 101 fun i => if i ≤ 100 then .xray else .awg)
      ⟨101, 101, .awg, .active, some 0, ∅⟩ (by decide +kernel) monotone_const rfl rfl
    rw [revoked_iff monotone_const (by decide +kernel) rfl rfl] at hrevoked
    revert hrevoked
    decide +kernel
  · intro hclaim
    have hreached := hclaim (optedOutUntil 200) (fun _ => -3600) [1] (keysUntil 201 fun _ => .xray)
      ⟨201, 201, .xray, .active, some 0, ∅⟩ (by decide +kernel) 1 List.mem_cons_self monotone_const
      (fun _ => rfl) rfl
    rw [reached_iff monotone_const List.mem_cons_self (by decide +kernel) (fun _ => rfl) rfl] at hreached
    obtain ⟨-, hcount⟩ := hreached
    revert hcount
    decide +kernel

/-- An active key, and two runs of the reminder job. -/
def insertAndNotify : List Action :=
  [.insert 5 .xray .active (some 3600), .notify (optedOutUntil 0) 0 [1, 3], .notify (optedOutUntil 0) 0 [1, 3]]

/-- With one key less before them both keys are served. -/
theorem key_expiry_progress_of_room :
    (∃ n row, (revokeCycles xrayDegraded (fun _ => 0) (keysUntil 101 fun i => if i ≤ 99 then .xray else .awg)
      n).find? 101 = some row ∧ row.status = .revoked) ∧
    (∃ n, Reached (reminderRuns (optedOutUntil 199) (fun _ => -3600) [1] (keysUntil 201 fun _ => .xray) n).1
      (reminderRuns (optedOutUntil 199) (fun _ => -3600) [1] (keysUntil 201 fun _ => .xray) n).2
      ⟨201, 201, .xray, .active, some 0, ∅⟩ 1) ∧
    ∃ s, runFrom step .start insertAndNotify = some s ∧
      (s.sends.filter Send.delivered).Pairwise Apart := by
  have hrun := (key_expiry_progress (fun _ => 0) (keysUntil 0 fun _ => .xray)).2.2 insertAndNotify
  refine ⟨?_, ?_, _, rfl, hrun _ rfl⟩
  · refine ((key_expiry_progress (fun _ => 0) _).1 xrayDegraded ⟨101, 101, .awg, .active, some 0, ∅⟩
      (by decide +kernel) monotone_const rfl rfl).2 ?_
    decide +kernel
  · refine ((key_expiry_progress (fun _ => -3600) _).2.1 (optedOutUntil 199) [1]
      ⟨201, 201, .xray, .active, some 0, ∅⟩ (by decide +kernel) 1 List.mem_cons_self monotone_const
      (fun _ => rfl) rfl).2 ⟨0, ?_⟩
    decide +kernel

end VpnBot.Expiry
