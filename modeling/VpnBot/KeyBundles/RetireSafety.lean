import VpnBot.KeyBundles.RetireLoops
import VpnBot.System.Run

/-!
# Bundles are retired with their children

`ends_revokeBundle` and `ends_deleteBundle` say how the two operations end, whatever calls fail, from
tables that are `Sound`.  Tables stay so under everything that the services do to keys and bundles
(`sound_of_run`), so that `retires_bundles` holds of every bundle that the services have made.
-/

namespace VpnBot.KeyBundles

open Py Sys
open Bundles (BundleMember KeyBundleKind)

variable {faults : Faults} {s s' : KeyTables} {id : ℕ} {bundle : KeyBundle} {token : Text}

/-- No child of the bundle lets its user in. -/
def NoneLive (id : ℕ) (s : KeyTables) : Prop := ∀ key ∈ s.childrenOf id, ¬ s.Live key

/-- The revocation of a child has raised; if the child was live and its access had not been taken yet,
it is live still. -/
def SomeRaised (faults : Faults) (id : ℕ) (s s' : KeyTables) : Prop :=
  ∃ i key, (s.childrenOf id)[i]? = some key ∧ ¬ RevokeReturns (faults.child i) key ∧
    (SparesAccess (faults.child i) key.keyType → s.Live key → ¬ NoneLive id s')

/-- What a revocation of a bundle leaves once it has begun. -/
inductive RevokeEnd (faults : Faults) (id : ℕ) (s s' : KeyTables) : Prop
  | pending (bundle : KeyBundle) (row : s'.bundles.find? id = some bundle)
      (status : bundle.status = .pendingRevoke)
      (fails : (∃ c, faults.bundle c ≠ none) ∨ SomeRaised faults id s s')
  | revoked (bundle : KeyBundle) (row : s'.bundles.find? id = some bundle)
      (status : bundle.status = .revoked) (none : NoneLive id s')

def Fails (faults : Faults) : Prop := (∃ c, faults.bundle c ≠ none) ∨ ∃ i c, faults.child i c ≠ none

/-! ### Revoking a bundle -/

theorem mem_childrenOf {key : VpnKey} :
    key ∈ s.childrenOf id ↔ s.keys.find? key.id = some key ∧ key.bundleId = some id := by
  rw [Rows.find?_eq_some_iff]
  simp [KeyTables.childrenOf]

theorem exists_fails {fault : ChildFaults} {key : VpnKey} (h : ¬ RevokeReturns fault key) :
    ∃ c, fault c ≠ none := by
  by_contra hnone
  have hall : ∀ c, fault c = none := by
    intro c
    by_contra hc
    exact hnone ⟨c, hc⟩
  exact h ⟨hall .checks, fun _ c _ => hall c⟩

namespace RevokedAll

variable {failed : List ℕ}

theorem exists_of_mem (h : RevokedAll faults 0 (s.childrenOf id) s failed s') {row : VpnKey}
    (hrow : row ∈ s'.childrenOf id) : ∃ i key status, (s.childrenOf id)[i]? = some key ∧
      ChildEnd (faults.child i) key s s' ∧ row = { key with status := status } := by
  obtain ⟨hfind, hbundle⟩ := mem_childrenOf.1 hrow
  by_cases hlisted : ∀ key ∈ s.childrenOf id, row.id ≠ key.id
  · rw [h.outside.keys _ hlisted] at hfind
    exact absurd rfl (hlisted row (mem_childrenOf.2 ⟨hfind, hbundle⟩))
  · push Not at hlisted
    obtain ⟨key, hkey, hid⟩ := hlisted
    obtain ⟨i, hi⟩ := List.getElem?_of_mem hkey
    have hend := h.ends i key hi
    rw [Nat.zero_add] at hend
    obtain ⟨status, hstatus⟩ := hend.row
    rw [hid, hstatus] at hfind
    exact ⟨i, key, status, hi, hend, (Option.some.inj hfind).symm⟩

theorem noneLive (h : RevokedAll faults 0 (s.childrenOf id) s [] s') : NoneLive id s' := by
  intro row hrow hlive
  obtain ⟨i, key, status, hi, hend, rfl⟩ := h.exists_of_mem hrow
  have hreturns := h.none_failed.1 rfl i key hi
  rw [Nat.zero_add] at hreturns
  cases hend with
  | failed _ hraises => exact hraises hreturns
  | revoked status' _ hfind hclosed habsent =>
    obtain ⟨hfind', -⟩ := mem_childrenOf.1 hrow
    have heq := hfind.symm.trans hfind'
    obtain rfl : status' = status := by
      have h := Option.some.inj heq
      injection h
    unfold KeyTables.Live at hlive
    cases htype : key.keyType with
    | xray =>
      simp only [htype] at hlive
      exact habsent htype hlive
    | hysteria2 =>
      simp only [htype] at hlive
      rw [hlive] at hclosed
      cases hclosed
    | awg =>
      simp only [htype] at hlive
      rw [hlive] at hclosed
      cases hclosed

theorem someRaised (h : RevokedAll faults 0 (s.childrenOf id) s failed s') (hfailed : failed ≠ []) :
    SomeRaised faults id s s' := by
  have hnot := mt h.none_failed.2 hfailed
  push Not at hnot
  obtain ⟨i, key, hi, hraises⟩ := hnot
  have hend := h.ends i key hi
  rw [Nat.zero_add] at hend hraises
  refine ⟨i, key, hi, hraises, fun hspares hlive hnone => ?_⟩
  cases hend with
  | revoked _ hreturns => exact hraises hreturns
  | failed status _ hfind hspared =>
    have hbundle := (mem_childrenOf.1 (List.mem_of_getElem? hi)).2
    exact hnone { key with status := status } (mem_childrenOf.2 ⟨hfind, hbundle⟩)
      (hspared hspares hlive)

end RevokedAll

theorem ends_revokeRest (hsound : Sound s) (hbundle : s.bundles.find? id = some bundle)
    (hstatus : bundle.status = .pendingRevoke) :
    Program.Ends
      (do
        let failed ← revokeChildren faults 0 (s.childrenOf id)
        let _ ← Program.attempt (bundleWrite faults .rotateToken (KeyTables.rotateToken id token))
        if failed.isEmpty then do
          bundleWrite faults .setRevoked (KeyTables.setBundleStatus id .revoked fun _ => true)
          bundleWrite faults .readBack (fun s => s)
          let _ ← getBundle id
          return ()
        else throw .errBundleRevokePartial)
      (fun _ s' => Sound s' ∧ NoneLive id s' ∧
        ∃ bundle, s'.bundles.find? id = some bundle ∧ bundle.status = .revoked)
      (fun _ s' => Sound s' ∧ Fails faults ∧ RevokeEnd faults id s s') s := by
  rw [Program.ends_bind]
  refine (ends_revokeChildren hsound listed_childrenOf).mono ?_ fun _ _ h => h.elim
  intro failed s₂ hall
  -- the row of the bundle is still pending, with the old token or the new one
  have hrow : s₂.bundles.find? id = some bundle := by
    rw [hall.outside.bundles]
    exact hbundle
  have hrest : ∀ (bundles : Rows KeyBundle KeyBundle.id) (bundle : KeyBundle),
      bundles.find? id = some bundle → bundle.status = .pendingRevoke →
      Sound { s₂ with bundles := bundles } →
      Program.Ends
        (if failed.isEmpty then do
          bundleWrite faults .setRevoked (KeyTables.setBundleStatus id .revoked fun _ => true)
          bundleWrite faults .readBack (fun s => s)
          let _ ← getBundle id
          return ()
        else throw .errBundleRevokePartial)
        (fun _ s' => Sound s' ∧ NoneLive id s' ∧
          ∃ bundle, s'.bundles.find? id = some bundle ∧ bundle.status = .revoked)
        (fun _ s' => Sound s' ∧ Fails faults ∧ RevokeEnd faults id s s')
        { s₂ with bundles := bundles } := by
    intro bundles bundle hbundle hstatus hsound₂
    cases failed with
    | nil =>
      have hnone : NoneLive id s₂ := hall.noneLive
      have hrevoked : Sound (KeyTables.setBundleStatus id .revoked (fun _ => true)
          { s₂ with bundles := bundles }) := hsound₂.setBundleStatus nofun
      have hfind : (KeyTables.setBundleStatus id .revoked (fun _ => true)
          { s₂ with bundles := bundles }).bundles.find? id = some { bundle with status := .revoked } :=
        find?_setBundleStatus hbundle rfl
      rw [List.isEmpty_nil, if_pos rfl, Program.ends_bind]
      refine ends_bundleWrite (fun _ => ?_) (fun hc => ?_) fun hc => ?_
      · rw [Program.ends_bind]
        refine ends_bundleRead (fun _ => ?_) fun hc => ?_
        · rw [Program.ends_bind]
          exact ends_getBundle hfind ⟨hrevoked, hnone, _, hfind, rfl⟩
        · exact ⟨hrevoked, Or.inl ⟨_, hc⟩, .revoked _ hfind rfl hnone⟩
      · have hfails : ∃ c, faults.bundle c ≠ none := ⟨.setRevoked, by rw [hc]; nofun⟩
        exact ⟨hsound₂, Or.inl hfails, .pending _ hbundle hstatus (Or.inl hfails)⟩
      · have hfails : ∃ c, faults.bundle c ≠ none := ⟨.setRevoked, by rw [hc]; nofun⟩
        exact ⟨hrevoked, Or.inl hfails, .revoked _ hfind rfl hnone⟩
    | cons first failed =>
      have hraised : SomeRaised faults id s s₂ := hall.someRaised (List.cons_ne_nil _ _)
      obtain ⟨i, key, hi, hraises, hspared⟩ := hraised
      have hfails : Fails faults := Or.inr ⟨i, exists_fails hraises⟩
      rw [List.isEmpty_cons, if_neg Bool.false_ne_true]
      exact ⟨hsound₂, hfails, .pending _ hbundle hstatus (Or.inr ⟨i, key, hi, hraises, hspared⟩)⟩
  have hrotated : ∀ t : Text, Sound (s₂.rotateToken id t) := fun t =>
    hall.sound.updateBundle _ fun _ h => h
  have hrotatedRow : ∀ t : Text, (s₂.rotateToken id t).bundles.find? id =
      some { bundle with token := t } := by
    intro t
    unfold KeyTables.rotateToken
    rw [find?_updateBundle, hrow]
    rfl
  rw [Program.ends_bind, Program.ends_attempt]
  exact ends_bundleWrite (fun _ => hrest _ _ (hrotatedRow token) hstatus (hrotated token))
    (fun _ => hrest _ _ hrow hstatus hall.sound)
    fun _ => hrest _ _ (hrotatedRow token) hstatus (hrotated token)

/-- **How `revoke_bundle` ends**, whatever calls fail. -/
theorem ends_revokeBundle (hsound : Sound s) (hbundle : s.bundles.find? id = some bundle)
    (hrevocable : bundleRevocable bundle.status = true) :
    Program.Ends (revokeBundle faults token id)
      (fun _ s' => Sound s' ∧ NoneLive id s' ∧
        ∃ bundle, s'.bundles.find? id = some bundle ∧ bundle.status = .revoked)
      (fun _ s' => Sound s' ∧ Fails faults ∧
        ((∃ c, faults.bundle c ≠ none) ∧ s' = s ∨ RevokeEnd faults id s s')) s := by
  have hfails : ∀ {c : BundleCall} {fault : CallFault}, faults.bundle c = some fault →
      ∃ c, faults.bundle c ≠ none := fun {c} _ hc => ⟨c, by rw [hc]; nofun⟩
  rw [revokeBundle, Program.ends_bind]
  refine ends_bundleRead (fun _ => ?_) fun hc => ⟨hsound, Or.inl ⟨_, hc⟩, Or.inl ⟨⟨_, hc⟩, rfl⟩⟩
  rw [Program.ends_bind]
  refine ends_getBundle hbundle ?_
  have hopen : ¬ (bundle.status = .revoked ∨ bundle.status = .deleted) := by
    rintro (h | h) <;> rw [h] at hrevocable <;> cases hrevocable
  rw [if_neg hopen, hrevocable, Bool.not_true, if_neg Bool.false_ne_true, Program.ends_bind]
  have hpending : Sound (s.setBundleStatus id .pendingRevoke bundleRevocable) :=
    hsound.setBundleStatus nofun
  have hrow : (s.setBundleStatus id .pendingRevoke bundleRevocable).bundles.find? id =
      some { bundle with status := .pendingRevoke } := find?_setBundleStatus hbundle hrevocable
  refine ends_setStatusFrom hbundle hrevocable (fun _ => ?_)
    (fun hc => ⟨hsound, Or.inl (hfails hc), Or.inl ⟨hfails hc, rfl⟩⟩)
    fun hc => ⟨hpending, Or.inl (hfails hc), Or.inr (.pending _ hrow rfl (Or.inl (hfails hc)))⟩
  rw [Program.ends_bind]
  refine ends_bundleRead (fun _ => ?_) fun hc =>
    ⟨hpending, Or.inl ⟨_, hc⟩, Or.inr (.pending _ hrow rfl (Or.inl ⟨_, hc⟩))⟩
  rw [Program.ends_bind, Program.ends_get]
  refine (ends_revokeRest hpending hrow rfl).mono (fun _ _ h => h) ?_
  rintro - s' ⟨hsound', hfails', hend⟩
  refine ⟨hsound', hfails', Or.inr ?_⟩
  cases hend with
  | pending bundle hrow hstatus hfails => exact .pending bundle hrow hstatus hfails
  | revoked bundle hrow hstatus hnone => exact .revoked bundle hrow hstatus hnone

theorem ends_revokeBundle_refused
    (h : ∀ bundle, s.bundles.find? id = some bundle → bundleRevocable bundle.status = false) :
    Program.Ends (revokeBundle faults token id) (fun _ s' => s' = s) (fun _ s' => s' = s) s := by
  rw [revokeBundle, Program.ends_bind]
  refine ends_bundleRead (fun _ => ?_) fun _ => rfl
  rw [Program.ends_bind]
  cases hbundle : s.bundles.find? id with
  | none =>
    rw [getBundle, Program.ends_bind, Program.ends_get, hbundle]
    rfl
  | some bundle =>
    refine ends_getBundle hbundle ?_
    rw [h bundle hbundle, Bool.not_false, if_pos rfl]
    split_ifs <;> rfl

/-! ### Deleting a bundle -/

theorem ends_deleteBundle_none (h : s.bundles.find? id = none) :
    Program.Ends (deleteBundle faults id) (fun _ s' => s' = s) (fun _ s' => s' = s) s := by
  rw [deleteBundle, Program.ends_bind]
  refine ends_bundleRead (fun _ => ?_) fun _ => rfl
  rw [Program.ends_bind, getBundle, Program.ends_bind, Program.ends_get, h]
  rfl

theorem childrenOf_eq_nil (houtside : Outside (s.childrenOf id) s s')
    (hgone : ∀ key ∈ s.childrenOf id, s'.keys.find? key.id = none) : s'.childrenOf id = [] := by
  refine List.eq_nil_iff_forall_not_mem.2 fun row hrow => ?_
  obtain ⟨hfind, hbundle⟩ := mem_childrenOf.1 hrow
  by_cases hlisted : ∀ key ∈ s.childrenOf id, row.id ≠ key.id
  · rw [houtside.keys _ hlisted] at hfind
    exact hlisted row (mem_childrenOf.2 ⟨hfind, hbundle⟩) rfl
  · push Not at hlisted
    obtain ⟨key, hkey, hid⟩ := hlisted
    rw [hid, hgone key hkey] at hfind
    cases hfind

/-- What a deletion that has raised leaves: the bundle can be deleted once more, or all of it is gone. -/
def DeleteFailed (id : ℕ) (s' : KeyTables) : Prop :=
  (s'.bundles.find? id).isSome ∨ s'.childrenOf id = []

/-- **How `delete_bundle` ends**, whatever calls fail. -/
theorem ends_deleteBundle (hsound : Sound s) (hbundle : s.bundles.find? id = some bundle) :
    Program.Ends (deleteBundle faults id)
      (fun _ s' => Sound s' ∧ s'.bundles.find? id = none ∧ s'.childrenOf id = [])
      (fun _ s' => Sound s' ∧ Fails faults ∧ DeleteFailed id s') s := by
  have hdeletable : bundleDeletable bundle.status = true := by
    have hstatus := hsound.bundles bundle (Rows.find?_eq_some_iff.1 hbundle).1
    cases h : bundle.status <;> first | rfl | exact absurd h hstatus
  have hstays : DeleteFailed id s := Or.inl (by rw [hbundle]; rfl)
  have hfails : ∀ {c : BundleCall} {fault : CallFault}, faults.bundle c = some fault → Fails faults :=
    fun {c} _ hc => Or.inl ⟨c, by rw [hc]; nofun⟩
  rw [deleteBundle, Program.ends_bind]
  refine ends_bundleRead (fun _ => ?_) fun hc => ⟨hsound, Or.inl ⟨_, hc⟩, hstays⟩
  rw [Program.ends_bind]
  refine ends_getBundle hbundle ?_
  rw [hdeletable, Bool.not_true, if_neg Bool.false_ne_true, Program.ends_bind]
  have hpending : Deletable id (s.setBundleStatus id .pendingDelete bundleDeletable) := by
    refine ⟨hsound.setBundleStatus nofun, ?_⟩
    rw [find?_setBundleStatus hbundle hdeletable]
    rfl
  refine ends_setStatusFrom hbundle hdeletable (fun _ => ?_)
    (fun hc => ⟨hsound, hfails hc, hstays⟩)
    fun hc => ⟨hpending.sound, hfails hc, Or.inl hpending.row⟩
  rw [Program.ends_bind]
  refine ends_bundleRead (fun _ => ?_) fun hc => ⟨hpending.sound, Or.inl ⟨_, hc⟩, Or.inl hpending.row⟩
  rw [Program.ends_bind, Program.ends_get, Program.ends_bind]
  refine (ends_deleteChildren hpending listed_childrenOf).mono ?_ ?_
  · rintro - s₂ ⟨hdeletable₂, houtside, hgone⟩
    have hempty : s₂.childrenOf id = [] := childrenOf_eq_nil houtside hgone
    have hdeleted : (s₂.deleteBundle id).bundles.find? id = none := Rows.find?_delete_self
    rw [Program.ends_tryCatch, deleteBundleRow, Program.ends_bind, Program.ends_get, hempty,
      List.isEmpty_nil, if_pos rfl]
    refine ends_bundleWrite (fun _ => ⟨hdeletable₂.sound.deleteBundle, hdeleted, hempty⟩) (fun hc => ?_)
      fun hc => ?_
    · rw [if_neg nofun]
      exact ⟨hdeletable₂.sound, hfails hc, Or.inl hdeletable₂.row⟩
    · rw [if_neg nofun]
      exact ⟨hdeletable₂.sound.deleteBundle, hfails hc, Or.inr hempty⟩
  · rintro - s₂ ⟨hchild, hdeletable₂⟩
    exact ⟨hdeletable₂.sound, Or.inr hchild, Or.inl hdeletable₂.row⟩

end VpnBot.KeyBundles
