import Mathlib
import VpnBot.Keys.VpnKey
import VpnBot.System.Paging
import VpnBot.System.Rows
import VpnBot.System.Run

/-!
# Expiry of keys

`KeyExpiryService` of `src/services/key_expiry.py` with the queries of `src/repositories/vpn_keys.py`, and the
`revoke_…_key_system` methods of `src/services/xray.py`, `src/services/awg.py` and
`src/services/hysteria.py` as far as the table sees them.

A time is in seconds since 1970: the times of the table and of the clock are texts of one form.
`expiry_notified_days` has the numbers of a set in their order, between commas.  Rows that expire at the
same time come in the order of their ids.  What the backends and Telegram answer is a parameter.

Not modelled: the texts of the messages and the days that they name, the notice about an expired key, the
audit log and the count of skipped revocations.
-/

namespace VpnBot.Expiry

open Sys

/-! ### Table -/

/-- A row of `vpn_keys`. -/
structure VpnKey where
  id : ℕ
  ownerUserId : ℤ
  keyType : VpnKeyType
  status : VpnKeyStatus
  expiresAt : Option ℤ
  expiryNotifiedDays : Finset ℕ
  deriving DecidableEq

abbrev VpnKeys := Rows VpnKey VpnKey.id

/-- `ORDER BY expires_at ASC`. -/
def VpnKey.place (key : VpnKey) : ℤ ×ₗ ℕ := toLex (key.expiresAt.getD 0, key.id)

/-- The `WHERE` clause of `list_expired_active`. -/
def VpnKey.isExpired (now : ℤ) (key : VpnKey) : Bool :=
  key.status = .active && key.expiresAt.any fun t => t ≤ now

/-- The `WHERE` clause of `list_not_notified_expiring`. -/
def VpnKey.isDue (now deadline : ℤ) (days : ℕ) (key : VpnKey) : Bool :=
  key.status = .active && (key.expiresAt.any fun t => now < t && t ≤ deadline) &&
    decide (days ∉ key.expiryNotifiedDays)

/-- `list_expired_active`. -/
def listExpiredActive (keys : VpnKeys) (now : ℤ) (limit : ℕ) : List VpnKey :=
  firstBy VpnKey.place (clampLimit limit) (keys.rows.filter (VpnKey.isExpired now))

/-- `list_not_notified_expiring`. -/
def listNotNotifiedExpiring (keys : VpnKeys) (now deadline : ℤ) (days limit : ℕ) : List VpnKey :=
  firstBy VpnKey.place (clampLimit limit) (keys.rows.filter (VpnKey.isDue now deadline days))

/-- `set_status`. -/
def setStatus (keys : VpnKeys) (keyId : ℕ) (status : VpnKeyStatus) : VpnKeys :=
  keys.update keyId (fun key => { key with status := status }) fun _ => rfl

/-- `mark_revoked`, and whether it returns. -/
def markRevoked (keys : VpnKeys) (keyId : ℕ) : VpnKeys × Bool :=
  match keys.find? keyId with
  | some key =>
    if key.status = .revoked ∨ key.status = .deleted then (keys, false)
    else (setStatus keys keyId .revoked, true)
  | none => (keys, false)

/-- `mark_expiry_notified`. -/
def markExpiryNotified (keys : VpnKeys) (keyId thresholdDays : ℕ) : VpnKeys :=
  keys.update keyId
    (fun key => { key with expiryNotifiedDays := insert thresholdDays key.expiryNotifiedDays }) fun _ => rfl

/-! ### Revoking -/

/-- What the backends answer: `require_mutation_allowed`, whether `_remove_xray_access` and
`_remove_awg_access` of a key return, and whether the service of Hysteria2 is there. -/
structure Backends where
  mutationAllowed : VpnKeyType → Bool
  removes : ℕ → Bool
  hysteria : Bool

/-- `revoke_xray_key_system` and `revoke_awg_key_system`, and whether the call returns. -/
def revokeKeySystem (backends : Backends) (keyType : VpnKeyType) (keys : VpnKeys) (keyId : ℕ) :
    VpnKeys × Bool :=
  if !backends.mutationAllowed keyType then (keys, false)
  else
    match keys.find? keyId with
    | none => (keys, false)
    | some key =>
      if key.keyType ≠ keyType then (keys, false)
      else if key.status = .revoked ∨ key.status = .deleted then (keys, true)
      else if !key.status.accessMayExist then (keys, false)
      else
        let pending := setStatus keys keyId .pendingRevoke
        if backends.removes keyId then markRevoked pending keyId
        -- the status is put back before the exception goes on
        else (setStatus pending keyId key.status, false)

/-- `HYSTERIA2_REVOCABLE_STATUSES`. -/
def hysteria2Revocable : VpnKeyStatus → Bool
  | .active | .pendingApply | .applyFailed => true
  | _ => false

/-- `revoke_hysteria2_key_system`. -/
def revokeHysteria2KeySystem (keys : VpnKeys) (keyId : ℕ) : VpnKeys × Bool :=
  match keys.find? keyId with
  | none => (keys, false)
  | some key =>
    if key.keyType ≠ .hysteria2 then (keys, false)
    else if key.status = .revoked ∨ key.status = .deleted then (keys, true)
    else if !hysteria2Revocable key.status then (keys, false)
    else markRevoked keys keyId

/-- The call for one expired key. -/
def revokeSystem (backends : Backends) (keys : VpnKeys) (key : VpnKey) : VpnKeys × Bool :=
  match key.keyType with
  | .xray => revokeKeySystem backends .xray keys key.id
  | .hysteria2 => if backends.hysteria then revokeHysteria2KeySystem keys key.id else (keys, false)
  | .awg => revokeKeySystem backends .awg keys key.id

/-- `revoke_expired_keys`: the table and the count. -/
def revokeExpiredKeys (backends : Backends) (now : ℤ) (keys : VpnKeys) : VpnKeys × ℕ :=
  (listExpiredActive keys now 100).foldl
    (fun done key =>
      let call := revokeSystem backends done.1 key
      (call.1, if call.2 then done.2 + 1 else done.2))
    (keys, 0)

/-! ### Reminding -/

/-- Who has `expiry_notifications_enabled` off, and whether `send_message` returns for the reminder of a
key. -/
structure Recipients where
  optedOut : ℤ → Bool
  delivers : ℕ → Bool

/-- A `send_message` with a reminder: in which run, for which key and threshold, and whether it returned. -/
structure Send where
  run : ℕ
  keyId : ℕ
  days : ℕ
  delivered : Bool
  deriving DecidableEq

/-- A run of `notify_expiring_keys` under way: the table, `notified_this_run` and the messages. -/
structure Reminding where
  keys : VpnKeys
  notifiedThisRun : List ℕ
  sends : List Send

/-- `_add_days`. -/
def addDays (time : ℤ) (days : ℕ) : ℤ := time + 86400 * days

/-- The body of the loop over the keys of one threshold. -/
def remindKey (users : Recipients) (run days : ℕ) (x : Reminding) (key : VpnKey) : Reminding :=
  if key.id ∈ x.notifiedThisRun then { x with keys := markExpiryNotified x.keys key.id days }
  else if users.optedOut key.ownerUserId then x
  else if users.delivers key.id then
    { keys := markExpiryNotified x.keys key.id days
      notifiedThisRun := key.id :: x.notifiedThisRun
      sends := x.sends ++ [⟨run, key.id, days, true⟩] }
  else { x with sends := x.sends ++ [⟨run, key.id, days, false⟩] }

/-- The body of the loop over the thresholds. -/
def remindAt (users : Recipients) (run : ℕ) (now : ℤ) (x : Reminding) (days : ℕ) : Reminding :=
  (listNotNotifiedExpiring x.keys now (addDays now days) days 200).foldl (remindKey users run days) x

/-- `notify_expiring_keys`. -/
def notifyExpiringKeys (users : Recipients) (run : ℕ) (now : ℤ) (notifyDays : List ℕ) (keys : VpnKeys) :
    Reminding :=
  (notifyDays.insertionSort (· ≤ ·)).foldl (remindAt users run now) ⟨keys, [], []⟩

/-! ### The jobs and the table over time -/

/-- The table, the messages of all runs, and the number of runs. -/
structure State where
  keys : VpnKeys
  sends : List Send
  runs : ℕ

/-- What happens: a run of one of the jobs, or a row is inserted, gets another status or is deleted. -/
inductive Action
  | notify (users : Recipients) (now : ℤ) (notifyDays : List ℕ)
  | revoke (backends : Backends) (now : ℤ)
  | insert (ownerUserId : ℤ) (keyType : VpnKeyType) (status : VpnKeyStatus) (expiresAt : Option ℤ)
  | setStatus (keyId : ℕ) (status : VpnKeyStatus)
  | delete (keyId : ℕ)

def step (s : State) : Action → Option State
  | .notify users now notifyDays =>
    let done := notifyExpiringKeys users s.runs now notifyDays s.keys
    some ⟨done.keys, s.sends ++ done.sends, s.runs + 1⟩
  | .revoke backends now => some { s with keys := (revokeExpiredKeys backends now s.keys).1 }
  | .insert ownerUserId keyType status expiresAt =>
    some { s with keys := s.keys.insert ⟨s.keys.next, ownerUserId, keyType, status, expiresAt, ∅⟩ rfl }
  | .setStatus keyId status => some { s with keys := setStatus s.keys keyId status }
  | .delete keyId => some { s with keys := s.keys.delete keyId }

/-- The table after `n` cycles of `revoke_expired_keys` at the times `now`. -/
def revokeCycles (backends : Backends) (now : ℕ → ℤ) (keys : VpnKeys) : ℕ → VpnKeys
  | 0 => keys
  | n + 1 => (revokeExpiredKeys backends (now n) (revokeCycles backends now keys n)).1

/-- The table and the messages after `n` runs of `notify_expiring_keys` at the times `now`. -/
def reminderRuns (users : Recipients) (now : ℕ → ℤ) (notifyDays : List ℕ) (keys : VpnKeys) :
    ℕ → VpnKeys × List Send
  | 0 => (keys, [])
  | n + 1 =>
    let before := reminderRuns users now notifyDays keys n
    let done := notifyExpiringKeys users n (now n) notifyDays before.1
    (done.keys, before.2 ++ done.sends)

end VpnBot.Expiry
