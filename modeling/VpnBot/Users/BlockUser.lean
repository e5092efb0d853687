import Mathlib.Data.Prod.Lex
import Mathlib.Order.Lattice.Nat
import VpnBot.Keys.VpnKey
import VpnBot.System.Paging

/-!
# Revoking what a blocked user owns

`_revoke_all_access_keys` and `_revoke_all_proxy_accesses` of `src/services/users.py`: one loop that
reads a page of the rows with a live status, tries the ones that it has not tried, and ends when a
page has nothing new.  A revoker is what its call does to the row: it raises or returns, and leaves the
row with some status, or deletes it.  The service has both repositories and its revokers attached, as
`bot/app.py` builds it, though a type may have no revoker.

Not modelled: the other columns of a row, and what the revokers do on their backends.
-/

namespace VpnBot.Users

open Sys

/-- `ProxyAccessType`. -/
inductive ProxyAccessType
  | socks5
  | mtproto
  deriving DecidableEq

/-- `ProxyAccessStatus`. -/
inductive ProxyAccessStatus
  | pendingApply
  | active
  | applyFailed
  | pendingRevoke
  | revoked
  | revokeFailed
  | inactive
  | pendingDelete
  | deleteFailed
  | deleted
  deriving DecidableEq

/-! ### Rows -/

/-- A row of the user in `vpn_keys` or `proxy_accesses`.  `time` is the column the query sorts by:
`created_at` of a key, `updated_at` of an access; `scan` is where the query finds rows of one time. -/
structure Access (κ σ : Type) where
  id : ℕ
  kind : κ
  status : σ
  time : ℕ
  scan : ℕ
  deriving DecidableEq

variable {κ σ : Type}

/-- The place of a row in the order of the query. -/
def Access.place (access : Access κ σ) : ℕ ×ₗ ℕ ×ₗ ℕ :=
  toLex (access.time, toLex (access.scan, access.id))

/-- The rows of the user. -/
structure AccessTable (κ σ : Type) where
  rows : List (Access κ σ)
  nodup : (rows.map Access.id).Nodup

/-- What a call of a revoker does: the text of its exception, if it raises, and the status, the time
and the scan position that the row has afterwards, if it is still there. -/
structure Outcome (σ : Type) where
  raises : Option String
  leaves : Option (σ × ℕ × ℕ)

/-- What the call leaves of the row. -/
def Outcome.settle (outcome : Outcome σ) (access : Access κ σ) : Option (Access κ σ) :=
  outcome.leaves.map fun (status, time, scan) =>
    { access with status := status, time := time, scan := scan }

/-- The revokers of the service, by type; what a call does depends on the row. -/
abbrev Revokers (κ σ : Type) := κ → Option (ℕ → Outcome σ)

/-- The row after the call of a revoker on the row with the id. -/
def writeRow (id : ℕ) (outcome : Outcome σ) (row : Access κ σ) : Option (Access κ σ) :=
  if row.id = id then outcome.settle row else some row

theorem id_of_settle {outcome : Outcome σ} {row row' : Access κ σ}
    (h : outcome.settle row = some row') : row'.id = row.id := by
  obtain ⟨left, -, rfl⟩ := Option.map_eq_some_iff.1 h
  rfl

theorem id_of_writeRow {id : ℕ} {outcome : Outcome σ} {row row' : Access κ σ}
    (h : writeRow id outcome row = some row') : row'.id = row.id := by
  unfold writeRow at h
  split_ifs at h
  · exact id_of_settle h
  · cases h
    rfl

theorem nodup_filterMap {rows : List (Access κ σ)} (hnodup : (rows.map Access.id).Nodup)
    {f : Access κ σ → Option (Access κ σ)} (hf : ∀ row row', f row = some row' → row'.id = row.id) :
    ((rows.filterMap f).map Access.id).Nodup := by
  refine hnodup.sublist ?_
  induction rows with
  | nil => exact List.Sublist.slnil
  | cons row rows ih =>
    have htail := ih (List.nodup_cons.1 hnodup).2
    cases hrow : f row with
    | none =>
      rw [List.filterMap_cons_none hrow]
      exact htail.cons _
    | some row' =>
      rw [List.filterMap_cons_some hrow, List.map_cons, List.map_cons, hf row row' hrow]
      exact htail.cons_cons _

namespace AccessTable

/-- `list_by_owner_statuses`. -/
def listByOwnerStatuses (live : σ → Bool) (limit : ℕ) (table : AccessTable κ σ) :
    List (Access κ σ) :=
  firstBy Access.place (min limit 500) (table.rows.filter fun row => live row.status)

/-- The table after the call of a revoker on the row with the id. -/
def write (id : ℕ) (outcome : Outcome σ) (table : AccessTable κ σ) : AccessTable κ σ where
  rows := table.rows.filterMap (writeRow id outcome)
  nodup := nodup_filterMap table.nodup fun _ _ => id_of_writeRow

end AccessTable

/-! ### The loop -/

/-- `KeyOperationError`. -/
structure KeyOperationError (κ : Type) where
  keyId : ℕ
  keyType : κ
  error : String
  deriving DecidableEq

/-- What the loop over keys and the loop over accesses differ in: the statuses that they list, and
their texts. -/
structure RevokeTexts (σ : Type) where
  live : σ → Bool
  noService : String
  stuck : String

/-- A loop in progress: the table, `succeeded_ids` in the order of the returned list, `failed_ids`, and
the errors. -/
structure Revocation (κ σ : Type) where
  table : AccessTable κ σ
  succeeded : List ℕ
  failed : List ℕ
  errors : List (KeyOperationError κ)

namespace Revocation

/-- The loop has tried the row. -/
def tried (r : Revocation κ σ) (id : ℕ) : Bool := id ∈ r.succeeded || id ∈ r.failed

def fail (r : Revocation κ σ) (access : Access κ σ) (error : String) : Revocation κ σ :=
  { r with
    failed := r.failed ++ [access.id]
    errors := r.errors ++ [⟨access.id, access.kind, error⟩] }

/-- The body of the `for`. -/
def attempt (texts : RevokeTexts σ) (revokers : Revokers κ σ) (r : Revocation κ σ)
    (access : Access κ σ) : Revocation κ σ :=
  match revokers access.kind with
  | none => r.fail access texts.noService
  | some revoker =>
    let outcome := revoker access.id
    let called := { r with table := r.table.write access.id outcome }
    match outcome.raises with
    | some error => called.fail access error
    | none => { called with succeeded := r.succeeded ++ [access.id] }

/-- The report of a page with nothing new: what was revoked and is still listed. -/
def reportStuck (texts : RevokeTexts σ) (accesses : List (Access κ σ)) (r : Revocation κ σ) :
    Revocation κ σ :=
  { r with
    errors := r.errors ++ (accesses.filter fun access => access.id ∈ r.succeeded).map fun access =>
      ⟨access.id, access.kind, texts.stuck⟩ }

/-- The `while True`, for a number of pages. -/
def revokeAll (texts : RevokeTexts σ) (revokers : Revokers κ σ) :
    ℕ → Revocation κ σ → Option (Revocation κ σ)
  | 0, _ => none
  | pages + 1, r =>
    let accesses := r.table.listByOwnerStatuses texts.live 500
    if accesses.isEmpty then some r
    else
      let pending := accesses.filter fun access => !r.tried access.id
      if pending.isEmpty then some (r.reportStuck texts accesses)
      else revokeAll texts revokers pages (pending.foldl (attempt texts revokers) r)

/-- Before the first page. -/
def start (table : AccessTable κ σ) : Revocation κ σ := ⟨table, [], [], []⟩

end Revocation

/-! ### Blocking -/

/-- The loop over the keys. -/
def keyTexts : RevokeTexts VpnKeyStatus where
  live := VpnKeyStatus.accessMayExist
  noService := "Нет сервиса для отзыва ключа"
  stuck := "Ключ застрял в активном статусе после отзыва (stuck in re-list)"

/-- The loop over the proxy accesses. -/
def proxyTexts : RevokeTexts ProxyAccessStatus where
  live
    | .active | .pendingApply | .applyFailed | .pendingRevoke | .revokeFailed | .pendingDelete
    | .deleteFailed => true
    | .revoked | .inactive | .deleted => false
  noService := "Нет сервиса для отзыва прокси-доступа"
  stuck := "Прокси-доступ застрял в активном статусе после отзыва (stuck in re-list)"

/-- `_revoke_all_access_keys`. -/
def revokeAllAccessKeys (revokers : Revokers VpnKeyType VpnKeyStatus) (pages : ℕ)
    (keys : AccessTable VpnKeyType VpnKeyStatus) : Option (Revocation VpnKeyType VpnKeyStatus) :=
  (Revocation.start keys).revokeAll keyTexts revokers pages

/-- `_revoke_all_proxy_accesses`. -/
def revokeAllProxyAccesses (revokers : Revokers ProxyAccessType ProxyAccessStatus) (pages : ℕ)
    (accesses : AccessTable ProxyAccessType ProxyAccessStatus) :
    Option (Revocation ProxyAccessType ProxyAccessStatus) :=
  (Revocation.start accesses).revokeAll proxyTexts revokers pages

/-- What `block_user` returns of the two loops, and the tables that they leave. -/
structure BlockUserResult where
  keys : AccessTable VpnKeyType VpnKeyStatus
  accesses : AccessTable ProxyAccessType ProxyAccessStatus
  revokedKeyIds : List ℕ
  revokedProxyIds : List ℕ
  errors : List (KeyOperationError (VpnKeyType ⊕ ProxyAccessType))

/-- The result of the two loops. -/
def blockUserResult (keyLoop : Revocation VpnKeyType VpnKeyStatus)
    (proxyLoop : Revocation ProxyAccessType ProxyAccessStatus) : BlockUserResult where
  keys := keyLoop.table
  accesses := proxyLoop.table
  revokedKeyIds := keyLoop.succeeded
  revokedProxyIds := proxyLoop.succeeded
  errors := keyLoop.errors.map (fun e => ⟨e.keyId, .inl e.keyType, e.error⟩) ++
    proxyLoop.errors.map fun e => ⟨e.keyId, .inr e.keyType, e.error⟩

/-- The part of `block_user` with `revoke_active_keys`, for a number of pages of each loop. -/
def revokeActiveKeys (keyRevokers : Revokers VpnKeyType VpnKeyStatus)
    (proxyRevokers : Revokers ProxyAccessType ProxyAccessStatus) (pages : ℕ)
    (keys : AccessTable VpnKeyType VpnKeyStatus)
    (accesses : AccessTable ProxyAccessType ProxyAccessStatus) : Option BlockUserResult := do
  let keyLoop ← revokeAllAccessKeys keyRevokers pages keys
  let proxyLoop ← revokeAllProxyAccesses proxyRevokers pages accesses
  some (blockUserResult keyLoop proxyLoop)

end VpnBot.Users
