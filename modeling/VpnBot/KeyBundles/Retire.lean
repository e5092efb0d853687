import VpnBot.KeyBundles.Children

/-!
# Retiring a bundle

`revoke_bundle` and `delete_bundle` of `src/services/key_bundles.py`, with the statements of
`src/repositories/key_bundles.py` that they use.  Both run inside the lock of the service; the faults say
which calls fail, for each child by its place in the list of the children.
-/

namespace VpnBot.KeyBundles

open Py Sys

/-- The calls that are made for the bundle itself. -/
inductive BundleCall
  | checks
  | setPending
  | list
  | rotateToken
  | setRevoked
  | readBack
  | deleteRow
  | markFailed
  deriving DecidableEq

/-- Which calls of a run fail, and how: those for the bundle, and those for its children. -/
structure Faults where
  bundle : BundleCall → Option CallFault
  child : ℕ → ChildFaults

/-- Only calls for the children fail. -/
def Faults.ChildrenOnly (faults : Faults) : Prop := ∀ c, faults.bundle c = none

/-- No call fails. -/
def noFaults : Faults := ⟨fun _ => none, fun _ _ => none⟩

/-- `BUNDLE_REVOCABLE_STATUSES`. -/
def bundleRevocable : KeyBundleStatus → Bool
  | .active | .pendingRevoke => true
  | .revoked | .pendingDelete | .deleteFailed | .deleted => false

/-- `BUNDLE_DELETABLE_STATUSES`. -/
def bundleDeletable : KeyBundleStatus → Bool
  | .active | .pendingRevoke | .revoked | .pendingDelete | .deleteFailed => true
  | .deleted => false

namespace KeyTables

/-- `UPDATE key_bundles SET … WHERE id = ?`. -/
def updateBundle (id : ℕ) (f : KeyBundle → KeyBundle) (hf : ∀ bundle, (f bundle).id = bundle.id)
    (s : KeyTables) : KeyTables := { s with bundles := s.bundles.update id f hf }

/-- The statement of `set_status`, for the rows in an allowed status. -/
def setBundleStatus (id : ℕ) (status : KeyBundleStatus) (allowed : KeyBundleStatus → Bool) :
    KeyTables → KeyTables :=
  updateBundle id
    (fun bundle => { bundle with status := if allowed bundle.status then status else bundle.status })
    fun _ => rfl

/-- `rotate_token`. -/
def rotateToken (id : ℕ) (token : Text) : KeyTables → KeyTables :=
  updateBundle id (fun bundle => { bundle with token := token }) fun _ => rfl

/-- `set_kind`. -/
def setKind (id : ℕ) (kind : Bundles.KeyBundleKind) : KeyTables → KeyTables :=
  updateBundle id (fun bundle => { bundle with kind := kind }) fun _ => rfl

def deleteBundle (id : ℕ) (s : KeyTables) : KeyTables := { s with bundles := s.bundles.delete id }

end KeyTables

section Service

variable (faults : Faults)

def bundleWrite (c : BundleCall) (effect : KeyTables → KeyTables) : KeyM Unit :=
  Program.call (faults.bundle c) .raised effect

/-- `_get_bundle`. -/
def getBundle (id : ℕ) : KeyM KeyBundle := do
  let s ← get
  match s.bundles.find? id with
  | none => throw .notFound
  | some bundle => return bundle

/-- `set_status` with `allowed_from_statuses`; it raises when it has changed no row. -/
def setStatusFrom (allowed : KeyBundleStatus → Bool) (id : ℕ) (status : KeyBundleStatus) :
    KeyM Unit := do
  let s ← get
  bundleWrite faults .setPending (KeyTables.setBundleStatus id status allowed)
  if (s.bundles.find? id).any fun bundle => allowed bundle.status then return ()
  else throw .concurrentModification

/-- The loop of `revoke_bundle`; the ids of the children whose revocation has raised. -/
def revokeChildren : ℕ → List VpnKey → KeyM (List ℕ)
  | _, [] => return []
  | k, key :: keys => do
    let revoked ← Program.attempt (revokeChild (faults.child k) key)
    let failed ← revokeChildren (k + 1) keys
    return if revoked then failed else key.id :: failed

/-- `revoke_bundle`; `token` is the token that would be generated. -/
def revokeBundle (token : Text) (id : ℕ) : KeyM Unit := do
  bundleWrite faults .checks (fun s => s)
  let bundle ← getBundle id
  if bundle.status = .revoked ∨ bundle.status = .deleted then return ()
  else if !bundleRevocable bundle.status then throw .errBundleRevokeActiveOnly
  else do
    setStatusFrom faults bundleRevocable id .pendingRevoke
    bundleWrite faults .list (fun s => s)
    let s ← get
    let failed ← revokeChildren faults 0 (s.childrenOf id)
    let _ ← Program.attempt (bundleWrite faults .rotateToken (KeyTables.rotateToken id token))
    if failed.isEmpty then do
      bundleWrite faults .setRevoked (KeyTables.setBundleStatus id .revoked fun _ => true)
      bundleWrite faults .readBack (fun s => s)
      let _ ← getBundle id
      return ()
    else throw .errBundleRevokePartial

/-- `_mark_bundle_failed`. -/
def markBundleFailed (id : ℕ) : KeyM Unit := do
  let _ ← Program.attempt
    (bundleWrite faults .markFailed (KeyTables.setBundleStatus id .deleteFailed fun _ => true))
  return ()

/-- The loop of `delete_bundle`: it ends with the first child that cannot be deleted. -/
def deleteChildren (bundleId : ℕ) : ℕ → List VpnKey → KeyM Unit
  | _, [] => return ()
  | k, key :: keys => do
    tryCatch (deleteChild (faults.child k) key) fun e => do
      markBundleFailed faults bundleId
      throw e
    deleteChildren bundleId (k + 1) keys

/-- `KeyBundleRepository.delete`: the foreign key of the key rows is RESTRICT. -/
def deleteBundleRow (id : ℕ) : KeyM Unit := do
  let s ← get
  if (s.childrenOf id).isEmpty then bundleWrite faults .deleteRow (KeyTables.deleteBundle id)
  else throw .integrityError

/-- `delete_bundle`. -/
def deleteBundle (id : ℕ) : KeyM Unit := do
  bundleWrite faults .checks (fun s => s)
  let bundle ← getBundle id
  if !bundleDeletable bundle.status then throw .errBundleDeleteForbidden
  else do
    setStatusFrom faults bundleDeletable id .pendingDelete
    bundleWrite faults .list (fun s => s)
    let s ← get
    deleteChildren faults id 0 (s.childrenOf id)
    tryCatch (deleteBundleRow faults id) fun e =>
      if e = .integrityError then do
        markBundleFailed faults id
        throw .errBundleHasKeys
      else throw e

end Service

end VpnBot.KeyBundles
