import VpnBot.KeyBundles.Retire

/-!
# Reconciling the composition of a bundle

`reconcile_composition` of `src/services/key_bundles.py`: `_plan_reconcile` compares the children of a
bundle with the composition that a new bundle would get, slot by slot, and `_apply_reconcile` creates what
is missing, then deletes what is over, and then sets the kind.

Not modelled: `dry_run` of many bundles (`reconcile_all`), the fingerprint that new children get, the
texts of the anomalies, and the audit log.
-/

namespace VpnBot.KeyBundles

open Py Sys
open Bundles (BundleMember KeyBundleKind XhttpProfile bundleComposition)

/-! ### Slots -/

def profileName : XhttpProfile → Text
  | .base => "base".toList
  | .multi => "multi".toList
  | .antisib => "antisib".toList

def xrayName : Transport → XhttpProfile → Text
  | .tcp, _ => "xray_tcp".toList
  | .http, profile => "xray_http_".toList ++ profileName profile

/-- `member_name`. -/
def memberName (member : BundleMember) : Text :=
  match member.keyType with
  | .xray => xrayName member.transport member.xhttpProfile
  | .hysteria2 => "hysteria2".toList

/-- `key_member_name` of `src/services/key_naming.py`. -/
def keyMemberName (key : VpnKey) : Text :=
  match key.keyType with
  | .xray => xrayName key.transport key.xhttpProfile
  | .hysteria2 => "hysteria2".toList
  | .awg => "awg".toList

/-- A member name and a relay. -/
abbrev Slot := Text × Option Text

/-- `_member_slot`. -/
def memberSlot (member : BundleMember) : Slot := (memberName member, member.relay)

/-- `_child_slot`. -/
def childSlot (key : VpnKey) : Slot := (keyMemberName key, key.relay)

/-- `member_audit_name` and `child_audit_name` of what occupies a slot. -/
def auditName (slot : Slot) : Text :=
  match slot.2 with
  | none => slot.1
  | some relay => slot.1 ++ "_relay_".toList ++ relay

/-! ### The plan -/

/-- What a reconcile finds outside the tables: the relays that are enabled and marked for subscriptions,
by their unique names, the members whose backend is switched on (`_member_enabled`), and the backends
that are degraded. -/
structure Environment where
  relays : List Text
  nodup : relays.Nodup
  enabled : BundleMember → Bool
  degraded : VpnKeyType → Bool

/-- `_resolve_composition`: the members that are included. -/
def Environment.included (env : Environment) (kind : KeyBundleKind) : List BundleMember :=
  (bundleComposition kind env.relays).filter env.enabled

/-- `ReconcileOutcome`; `unfinished` is its `PARTIAL`. -/
inductive ReconcileOutcome
  | noop
  | planned
  | applied
  | skipped
  | failed
  | unfinished
  deriving DecidableEq

/-- `ReconcileSkipReason`. -/
inductive ReconcileSkipReason
  | notActive
  | noMembers
  | unsupportedChild
  | noActiveChildren
  | duplicateMember
  | mixedExpiry
  | expired
  | inactiveChild
  | backendDegraded
  deriving DecidableEq

/-- `ReconcileResult`. -/
structure ReconcileResult where
  outcome : ReconcileOutcome
  kindBefore : KeyBundleKind
  kindAfter : KeyBundleKind
  toCreate : List Text
  toDelete : List Text
  createdKeyIds : List ℕ
  deletedKeyIds : List ℕ
  rollbackFailedKeyIds : List ℕ
  skipReason : Option ReconcileSkipReason
  deriving DecidableEq

/-- `_ReconcilePlan`. -/
structure ReconcilePlan where
  kindAfter : KeyBundleKind
  create : List BundleMember
  delete : List VpnKey
  expiresAt : Option ℕ

/-- A result in which nothing was written. -/
def ReconcileResult.unwritten (bundle : KeyBundle) (outcome : ReconcileOutcome)
    (skipReason : Option ReconcileSkipReason) : ReconcileResult :=
  ⟨outcome, bundle.kind, bundle.kind, [], [], [], [], [], skipReason⟩

def activeKeys (children : List VpnKey) : List VpnKey := children.filter fun key => key.status = .active

/-- The children that are to go: those outside the target, and those that are not active.  The children
are in the order of their ids. -/
def surplus (target : List Slot) (children : List VpnKey) : List VpnKey :=
  children.filter fun key => key.status ≠ .active || childSlot key ∉ target

/-- The children that stand in the way: not active, not being removed, and in a slot of the target. -/
def staleKeys (target : List Slot) (children : List VpnKey) : List VpnKey :=
  children.filter fun key =>
    key.status ≠ .active && !isRemoval key.status && childSlot key ∈ target

/-- The time has passed. -/
def hasExpired (expiresAt : Option ℕ) (now : ℕ) : Bool := expiresAt.any fun time => time ≤ now

/-- The members of the target whose slot no active child occupies. -/
def missing (included : List BundleMember) (children : List VpnKey) : List BundleMember :=
  included.filter fun member => memberSlot member ∉ (activeKeys children).map childSlot

/-- The end of `_plan_reconcile`, when the children are in order: what is missing and what is over. -/
def compareWithTarget (env : Environment) (bundle : KeyBundle) (kind : KeyBundleKind)
    (expiresAt : Option ℕ) (children : List VpnKey) : Except ReconcileResult ReconcilePlan :=
  let included := env.included kind
  let create := missing included children
  let delete := surplus (included.map memberSlot) children
  if create.isEmpty && delete.isEmpty && decide (kind = bundle.kind) then
    throw (.unwritten bundle .noop none)
  else if (create.map fun member => (KeyTables.pendingKey member none 0).keyType).any env.degraded ||
      (delete.map VpnKey.keyType).any env.degraded then
    throw (.unwritten bundle .skipped (some .backendDegraded))
  else return ⟨kind, create, delete, expiresAt⟩

/-- The bundle is left untouched. -/
def skip (bundle : KeyBundle) (reason : ReconcileSkipReason) : Except ReconcileResult ReconcilePlan :=
  throw (.unwritten bundle .skipped (some reason))

/-- The checks of `_plan_reconcile` on the active children, of which `first` is the first, and on those
that are not. -/
def checkChildren (env : Environment) (now : ℕ) (bundle : KeyBundle) (kind : KeyBundleKind)
    (children : List VpnKey) (first : VpnKey) (others : List VpnKey) :
    Except ReconcileResult ReconcilePlan :=
  if ¬ ((first :: others).map childSlot).Nodup then skip bundle .duplicateMember
  else if others.any fun key => key.expiresAt ≠ first.expiresAt then skip bundle .mixedExpiry
  else if hasExpired first.expiresAt now then skip bundle .expired
  else if !(staleKeys ((env.included kind).map memberSlot) children).isEmpty then
    skip bundle .inactiveChild
  else compareWithTarget env bundle kind first.expiresAt children

/-- `_plan_reconcile`. -/
def planReconcile (env : Environment) (now : ℕ) (target : Option KeyBundleKind) (bundle : KeyBundle)
    (children : List VpnKey) : Except ReconcileResult ReconcilePlan :=
  let kind := target.getD bundle.kind
  if bundle.status ≠ .active then skip bundle .notActive
  else if (env.included kind).isEmpty then skip bundle .noMembers
  else if children.any fun key => key.keyType = .awg then skip bundle .unsupportedChild
  else
    match activeKeys children with
    | [] => skip bundle .noActiveChildren
    | first :: others => checkChildren env now bundle kind children first others

/-! ### The changes -/

/-- Which calls of a reconcile fail: reading the bundle and its children, reading the owner, and the
calls for each child that is created, taken back or deleted. -/
structure ReconcileFaults where
  plan : Option CallFault
  owner : Option CallFault
  create : ℕ → ChildFaults
  undo : ℕ → ChildFaults
  delete : ℕ → ChildFaults
  setKind : Option CallFault

section Apply

variable (faults : ReconcileFaults)

/-- The loop over the members that are missing; the keys that it has created, and whether it has come
to its end.  A key is recorded before it is attached. -/
def createMembers (bundleId : ℕ) (expiresAt : Option ℕ) :
    ℕ → List BundleMember → KeyM (List VpnKey × Bool)
  | _, [] => return ([], true)
  | k, member :: members => do
    let id ← tryCatch (some <$> provisionChild (faults.create k) member expiresAt) fun _ => return none
    match id with
    | none => return ([], false)
    | some id => do
      let key := KeyTables.issuedKey member expiresAt id .active
      let attached ← Program.attempt (attachKey (faults.create k) id bundleId)
      if attached then do
        let rest ← createMembers bundleId expiresAt (k + 1) members
        return (key :: rest.1, rest.2)
      else return ([key], false)

/-- `_rollback_reconcile_creates`, with the keys newest first; the ids of those that could not be
removed. -/
def rollbackReconcileCreates : ℕ → List VpnKey → KeyM (List ℕ)
  | _, [] => return []
  | k, key :: keys => do
    let deleted ← Program.attempt (deleteChild (faults.undo k) key)
    let failed ← rollbackReconcileCreates (k + 1) keys
    return if deleted then failed else key.id :: failed

/-- The loop over the children that are to go; the ids of those that went, and whether it has come to
its end. -/
def deleteSurplus : ℕ → List VpnKey → KeyM (List ℕ × Bool)
  | _, [] => return ([], true)
  | k, key :: keys => do
    let deleted ← Program.attempt (deleteChild (faults.delete k) key)
    if deleted then do
      let rest ← deleteSurplus (k + 1) keys
      return (key.id :: rest.1, rest.2)
    else return ([], false)

/-- `set_kind` when the kind changes. -/
def changeKind (bundle : KeyBundle) (kind : KeyBundleKind) : KeyM Unit :=
  if kind = bundle.kind then return ()
  else Program.call faults.setKind .raised (KeyTables.setKind bundle.id kind)

/-- The creates of `_apply_reconcile`. -/
def applyCreates (bundle : KeyBundle) (plan : ReconcilePlan) : KeyM (List VpnKey × Bool) :=
  if plan.create.isEmpty then return ([], true)
  else do
    let owner ← Program.attempt (Program.call faults.owner .raised fun s => s)
    if owner then createMembers faults bundle.id plan.expiresAt 0 plan.create else return ([], false)

/-- `_apply_reconcile`. -/
def applyReconcile (bundle : KeyBundle) (plan : ReconcilePlan) : KeyM ReconcileResult := do
  let base : ReconcileResult :=
    ⟨.failed, bundle.kind, bundle.kind, plan.create.map fun member => auditName (memberSlot member),
      plan.delete.map fun key => auditName (childSlot key), [], [], [], none⟩
  let created ← applyCreates faults bundle plan
  if !created.2 then do
    let failed ← rollbackReconcileCreates faults 0 created.1.reverse
    return { base with createdKeyIds := created.1.map VpnKey.id, rollbackFailedKeyIds := failed }
  else do
    let deleted ← deleteSurplus faults 0 plan.delete
    let written ←
      if deleted.2 then Program.attempt (changeKind faults bundle plan.kindAfter) else pure false
    let done := { base with
      createdKeyIds := created.1.map VpnKey.id, deletedKeyIds := deleted.1, outcome := .unfinished }
    return if written then { done with outcome := .applied, kindAfter := plan.kindAfter } else done

/-- `reconcile_composition`. -/
def reconcileComposition (env : Environment) (now : ℕ) (target : Option KeyBundleKind) (dryRun : Bool)
    (id : ℕ) : KeyM ReconcileResult := do
  Program.call faults.plan .raised fun s => s
  let bundle ← getBundle id
  let s ← get
  match planReconcile env now target bundle (s.childrenOf id) with
  | .error result => return result
  | .ok plan =>
    if dryRun then
      return ⟨.planned, bundle.kind, plan.kindAfter,
        plan.create.map fun member => auditName (memberSlot member),
        plan.delete.map fun key => auditName (childSlot key), [], [], [], none⟩
    else applyReconcile faults bundle plan

end Apply

end VpnBot.KeyBundles
