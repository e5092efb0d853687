import Mathlib.Data.List.Basic

/-!
# Key types and statuses

`src/models/enums.py`: what kinds of keys there are and the stations of a key; and the largest page of a query
(`src/repositories/_helpers.py`).
-/

namespace VpnBot

/-- `VpnKeyStatus`. -/
inductive VpnKeyStatus
  | pendingApply
  | active
  | applyFailed
  | pendingRevoke
  | revoked
  | pendingDelete
  | deleteFailed
  | deleted
  | failed
  deriving DecidableEq

namespace VpnKeyStatus

/-- The statuses in which a key may have access on its backend. -/
def accessMayExist : VpnKeyStatus → Bool
  | .active | .pendingApply | .applyFailed | .pendingRevoke | .pendingDelete | .deleteFailed => true
  | .revoked | .deleted | .failed => false

end VpnKeyStatus

/-- `VpnKeyType`. -/
inductive VpnKeyType
  | xray
  | awg
  | hysteria2
  deriving DecidableEq

/-- The transport of an Xray key. -/
inductive Transport
  | tcp
  | http
  deriving DecidableEq

/-- `_clamp_limit`. -/
def clampLimit (limit : ℕ) : ℕ := min limit 500

end VpnBot
