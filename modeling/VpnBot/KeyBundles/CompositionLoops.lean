import VpnBot.KeyBundles.Composition
import VpnBot.KeyBundles.RetireLoops

/-!
# The loops of a reconcile

The creates leave all rows that were there and add rows of their own (`Grown`); the rollback and the
deletes touch the listed rows only, and a row that they could not delete is as it was or in a status of a
removal.
-/

namespace VpnBot.KeyBundles

open Py Sys
open Bundles (BundleMember KeyBundleKind)

variable {faults : ReconcileFaults} {key : VpnKey} {keys new : List VpnKey} {s s₁ s' : KeyTables}
  {id k : ℕ} {expiresAt : Option ℕ} {member : BundleMember} {members : List BundleMember}

/-! ### Creating -/

/-- A key as `_provision_child` returns it. -/
structure Provisioned (expiresAt : Option ℕ) (key : VpnKey) : Prop where
  status : key.status = .active
  expiresAt : key.expiresAt = expiresAt
  keyType : key.keyType ≠ .awg

/-- The rows that were there are as they were, and the rows that belong to a bundle and are new are those
of the new keys, attached or not yet. -/
structure Grown (id : ℕ) (expiresAt : Option ℕ) (new : List VpnKey) (s s' : KeyTables) : Prop where
  sound : Sound s'
  bundles : s'.bundles = s.bundles
  next : s.keys.next ≤ s'.keys.next
  old : ∀ j, j < s.keys.next → s'.keys.find? j = s.keys.find? j
  fresh : ∀ row ∈ s'.keys.rows, s.keys.next ≤ row.id →
    row.bundleId = none ∨ row.id ∈ new.map VpnKey.id
  found : ∀ key ∈ new, s.keys.next ≤ key.id ∧
    (s'.keys.find? key.id = some key ∨ s'.keys.find? key.id = some (key.attachTo id))
  nodup : (new.map VpnKey.id).Nodup
  provisioned : ∀ key ∈ new, Provisioned expiresAt key

theorem provisioned_issuedKey (member : BundleMember) (expiresAt : Option ℕ) (id : ℕ) :
    Provisioned expiresAt (KeyTables.issuedKey member expiresAt id .active) := by
  refine ⟨rfl, rfl, ?_⟩
  obtain ⟨keyType, transport, profile, relay⟩ := member
  cases keyType <;> rintro ⟨⟩

theorem childSlot_issuedKey (member : BundleMember) (expiresAt : Option ℕ) (id : ℕ)
    (status : VpnKeyStatus) :
    childSlot (KeyTables.issuedKey member expiresAt id status) = memberSlot member := by
  obtain ⟨keyType, transport, profile, relay⟩ := member
  cases keyType <;> cases transport <;> rfl

theorem childSlot_attachTo (id : ℕ) (key : VpnKey) : childSlot (key.attachTo id) = childSlot key := rfl

section Issued

variable {status : VpnKeyStatus}

theorem Issued.find?_of_lt (h : Issued member expiresAt s s' status) {j : ℕ} (hj : j < s.keys.next) :
    s'.keys.find? j = s.keys.find? j := by
  ext row
  rw [Rows.find?_eq_some_iff, Rows.find?_eq_some_iff, h.mem_rows]
  constructor
  · rintro ⟨hrow | rfl, hid⟩
    · exact ⟨hrow, hid⟩
    · exact absurd hid hj.ne'
  · rintro ⟨hrow, hid⟩
    exact ⟨Or.inl hrow, hid⟩

theorem Issued.find?_next (h : Issued member expiresAt s s' status) :
    s'.keys.find? s.keys.next = some (KeyTables.issuedKey member expiresAt s.keys.next status) :=
  Rows.find?_eq_some_iff.2 ⟨h.mem_rows.2 (Or.inr rfl), rfl⟩

end Issued

theorem find?_attachKeyToBundle {i bundleId : ℕ} :
    (s.attachKeyToBundle i bundleId).keys.find? i = (s.keys.find? i).map (VpnKey.attachTo bundleId) := by
  unfold KeyTables.attachKeyToBundle
  exact Rows.find?_update_self (f := VpnKey.attachTo bundleId) fun _ => rfl

theorem find?_attachKeyToBundle_of_ne {i j bundleId : ℕ} (h : j ≠ i) :
    (s.attachKeyToBundle i bundleId).keys.find? j = s.keys.find? j := by
  unfold KeyTables.attachKeyToBundle
  exact Rows.find?_update_of_ne (f := VpnKey.attachTo bundleId) (fun _ => rfl) h

theorem mem_rows_iff_find? {row : VpnKey} : row ∈ s.keys.rows ↔ s.keys.find? row.id = some row := by
  rw [Rows.find?_eq_some_iff, and_iff_left rfl]

namespace Grown

theorem rfl' (h : Sound s) : Grown id expiresAt [] s s :=
  ⟨h, rfl, le_rfl, fun _ _ => rfl,
    fun row hrow hle => absurd (s.keys.below row hrow) (Nat.not_lt.2 hle), List.forall_mem_nil _, .nil,
    List.forall_mem_nil _⟩

theorem of_maybeIssued (h : Sound s) (hissued : MaybeIssued member expiresAt s s') :
    Grown id expiresAt [] s s' := by
  rcases hissued with rfl | ⟨status, hissued⟩
  · exact rfl' h
  · refine ⟨hissued.sound h, hissued.bundles, by rw [hissued.next]; exact Nat.le_succ _,
      fun j hj => hissued.find?_of_lt hj, fun row hrow hle => ?_, List.forall_mem_nil _, .nil,
      List.forall_mem_nil _⟩
    rcases hissued.mem_rows.1 hrow with hold | rfl
    · exact absurd (s.keys.below row hold) (Nat.not_lt.2 hle)
    · exact Or.inl rfl

theorem cons (hrow : key.id = s.keys.next) (hprovisioned : Provisioned expiresAt key)
    (hold : ∀ j, j < s.keys.next → s₁.keys.find? j = s.keys.find? j)
    (hkey : s₁.keys.find? key.id = some key ∨ s₁.keys.find? key.id = some (key.attachTo id))
    (hnext : s₁.keys.next = s.keys.next + 1) (hbundles : s₁.bundles = s.bundles)
    (hrest : Grown id expiresAt new s₁ s') : Grown id expiresAt (key :: new) s s' := by
  have hlt : s.keys.next < s₁.keys.next := by omega
  have hfind : s'.keys.find? key.id = s₁.keys.find? key.id := hrest.old _ (by omega)
  refine ⟨hrest.sound, hrest.bundles.trans hbundles, hlt.le.trans hrest.next, fun j hj => ?_,
    fun row hmem hle => ?_, List.forall_mem_cons.2 ⟨⟨hrow.ge, hfind ▸ hkey⟩, fun other hother => ?_⟩,
    List.nodup_cons.2 ⟨fun hmem => ?_, hrest.nodup⟩,
    List.forall_mem_cons.2 ⟨hprovisioned, hrest.provisioned⟩⟩
  · exact (hrest.old j (hj.trans hlt)).trans (hold j hj)
  · rcases hle.eq_or_lt with heq | hgt
    · exact Or.inr (List.mem_cons.2 (Or.inl (heq.symm.trans hrow.symm)))
    · exact (hrest.fresh row hmem (by omega)).imp_right (List.mem_cons_of_mem _)
  · obtain ⟨hle, hother⟩ := hrest.found other hother
    exact ⟨hlt.le.trans hle, hother⟩
  · obtain ⟨other, hother, hid⟩ := List.mem_map.1 hmem
    have hle := (hrest.found other hother).1
    omega

end Grown

/-- Whether a call for a child fails. -/
def ReconcileFaults.Fails (faults : ReconcileFaults) : Prop :=
  faults.plan ≠ none ∨ faults.owner ≠ none ∨ (∃ k c, faults.create k c ≠ none) ∨
    (∃ k c, faults.undo k c ≠ none) ∨ (∃ k c, faults.delete k c ≠ none) ∨ faults.setKind ≠ none

/-- What the creates leave when they come to their end: every new key is attached. -/
structure CreatedAll (id : ℕ) (members : List BundleMember) (new : List VpnKey) (s' : KeyTables) :
    Prop where
  attached : ∀ key ∈ new, s'.keys.find? key.id = some (key.attachTo id)
  slots : new.map childSlot = members.map memberSlot

/-- **The creates of a reconcile**, whatever calls fail. -/
theorem ends_createMembers (hsound : Sound s) (hbundle : (s.bundles.find? id).isSome) :
    Program.Ends (createMembers faults id expiresAt k members)
      (fun r s' => Grown id expiresAt r.1 s s' ∧ (r.2 = true → CreatedAll id members r.1 s') ∧
        (r.2 = false → faults.Fails))
      (fun _ _ => False) s := by
  induction members generalizing k s with
  | nil => exact ⟨.rfl' hsound, fun _ => ⟨List.forall_mem_nil _, rfl⟩, nofun⟩
  | cons member members ih =>
    rw [createMembers, Program.ends_bind, Program.ends_tryCatch, Program.ends_map]
    refine ends_provisionChild.mono ?_ ?_
    · rintro _ s₁ ⟨rfl, hissued⟩
      have hsound₁ := hissued.sound hsound
      have hprovisioned := provisioned_issuedKey member expiresAt s.keys.next
      have hbundle₁ : (s₁.bundles.find? id).isSome := by
        rw [hissued.bundles]
        exact hbundle
      -- the row is attached
      have hattached : Sound (s₁.attachKeyToBundle s.keys.next id) := by
        refine hsound₁.attachKeyToBundle fun row hrow hid => ?_
        rcases hissued.mem_rows.1 hrow with hold | rfl
        · exact absurd hid (s.keys.below row hold).ne
        · exact hprovisioned.keyType
      have hold : ∀ j, j < s.keys.next →
          (s₁.attachKeyToBundle s.keys.next id).keys.find? j = s.keys.find? j := fun j hj =>
        (find?_attachKeyToBundle_of_ne hj.ne).trans (hissued.find?_of_lt hj)
      have hrow : (s₁.attachKeyToBundle s.keys.next id).keys.find? s.keys.next =
          some ((KeyTables.issuedKey member expiresAt s.keys.next .active).attachTo id) := by
        rw [find?_attachKeyToBundle, hissued.find?_next]
        rfl
      have hfails : ∀ {c : ChildCall} {fault : CallFault}, faults.create k c = some fault →
          faults.Fails := fun {c} _ hc => Or.inr (Or.inr (Or.inl ⟨k, c, by rw [hc]; nofun⟩))
      show Program.Ends (do
          let attached ← Program.attempt (attachKey (faults.create k) s.keys.next id)
          if attached then do
            let rest ← createMembers faults id expiresAt (k + 1) members
            return (KeyTables.issuedKey member expiresAt s.keys.next .active :: rest.1, rest.2)
          else return ([KeyTables.issuedKey member expiresAt s.keys.next .active], false)) _ _ s₁
      rw [Program.ends_bind, Program.ends_attempt]
      refine ends_attachKey hbundle₁ (fun _ => ?_) (fun hc => ?_) fun hc => ?_
      · rw [if_pos rfl, Program.ends_bind]
        refine (ih hattached hbundle₁).mono ?_ fun _ _ h => h
        rintro ⟨new, done⟩ s' ⟨hgrown, hall, hnot⟩
        rw [Program.ends_pure]
        refine ⟨.cons rfl hprovisioned hold (Or.inr hrow) hissued.next hissued.bundles hgrown,
          fun hdone => ?_, hnot⟩
        obtain ⟨hnew, hslots⟩ := hall hdone
        refine ⟨List.forall_mem_cons.2 ⟨?_, hnew⟩, ?_⟩
        · have hlt : s.keys.next < s₁.keys.next := by
            rw [hissued.next]
            exact Nat.lt_succ_self _
          exact (hgrown.old _ hlt).trans hrow
        · rw [List.map_cons, List.map_cons, hslots, childSlot_issuedKey]
      · rw [if_neg Bool.false_ne_true, Program.ends_pure]
        refine ⟨.cons rfl hprovisioned (fun j hj => hissued.find?_of_lt hj) (Or.inl hissued.find?_next)
          hissued.next hissued.bundles (.rfl' hsound₁), nofun, fun _ => hfails hc⟩
      · rw [if_neg Bool.false_ne_true, Program.ends_pure]
        refine ⟨.cons rfl hprovisioned hold (Or.inr hrow) hissued.next hissued.bundles
          (.rfl' hattached), nofun, fun _ => hfails hc⟩
    · rintro e s₁ ⟨⟨c, hc⟩, hissued⟩
      rw [Program.ends_pure]
      exact ⟨.of_maybeIssued hsound hissued, nofun, fun _ => Or.inr (Or.inr (Or.inl ⟨k, c, hc⟩))⟩

/-! ### Taking back and deleting -/

/-- What stays of a key that was to be deleted: nothing, its row, or its row in a status of a removal. -/
def Remains (key : VpnKey) (s' : KeyTables) : Prop :=
  s'.keys.find? key.id = none ∨ ∃ status, s'.keys.find? key.id = some { key with status := status } ∧
    (status = key.status ∨ isRemoval status = true)

theorem deleteChild_congr {fault : ChildFaults} {row : VpnKey} (hid : row.id = key.id)
    (htype : row.keyType = key.keyType) : deleteChild fault key = deleteChild fault row := by
  unfold deleteChild
  rw [hid, htype]

/-- **The rollback of the creates**, whatever calls fail. -/
theorem ends_rollbackReconcileCreates (hsound : Sound s) (hnodup : (keys.map VpnKey.id).Nodup)
    (hfound : ∀ key ∈ keys, ∃ row, s.keys.find? key.id = some row ∧ row.keyType = key.keyType)
    (htype : ∀ key ∈ keys, key.keyType ≠ .awg) :
    Program.Ends (rollbackReconcileCreates faults k keys)
      (fun failed s' => Sound s' ∧ Outside keys s s' ∧
        (failed = [] → ∀ key ∈ keys, s'.keys.find? key.id = none))
      (fun _ _ => False) s := by
  induction keys generalizing k s with
  | nil => exact ⟨hsound, .rfl', fun _ => List.forall_mem_nil _⟩
  | cons key keys ih =>
    obtain ⟨row, hrow, hrowType⟩ := hfound key List.mem_cons_self
    have hid : row.id = key.id := (Rows.find?_eq_some_iff.1 hrow).2
    obtain ⟨hnot, hnodup'⟩ := List.nodup_cons.1 hnodup
    have hne : ∀ other ∈ keys, key.id ≠ other.id := fun other hother heq =>
      hnot (heq ▸ List.mem_map_of_mem hother)
    -- the other keys are found after the turn of the first one
    have hrest : ∀ {s₁ : KeyTables}, Sound s₁ → Only key.id s s₁ →
        Program.Ends (rollbackReconcileCreates faults (k + 1) keys)
          (fun failed s' => Sound s' ∧ Outside keys s₁ s' ∧
            (failed = [] → ∀ key ∈ keys, s'.keys.find? key.id = none)) (fun _ _ => False) s₁ := by
      intro s₁ hsound₁ honly
      refine ih hsound₁ hnodup' (fun other hother => ?_)
        fun other hother => htype other (List.mem_cons_of_mem _ hother)
      rw [honly.keys _ (hne other hother).symm]
      exact hfound other (List.mem_cons_of_mem _ hother)
    rw [rollbackReconcileCreates, Program.ends_bind, Program.ends_attempt,
      deleteChild_congr hid hrowType]
    refine (ends_deleteChild hsound (hid ▸ hrow) ?_).mono ?_ ?_
    · rw [hrowType]
      exact htype key List.mem_cons_self
    · intro _ s₁ hdeleted
      have honly : Only key.id s s₁ := hid ▸ hdeleted.only
      rw [Program.ends_bind]
      refine (hrest (hsound.deleted hdeleted) honly).mono ?_ fun _ _ h => h
      rintro failed s' ⟨hsound', houtside, hgone⟩
      rw [Program.ends_pure]
      refine ⟨hsound', .cons honly houtside, fun hfailed => List.forall_mem_cons.2 ⟨?_, hgone hfailed⟩⟩
      rw [houtside.keys _ hne, ← hid]
      exact hdeleted.row
    · rintro - s₁ ⟨-, hnotDeleted⟩
      have honly : Only key.id s s₁ := hid ▸ hnotDeleted.only
      rw [Program.ends_bind]
      refine (hrest (hsound.notDeleted (hid ▸ hrow) hnotDeleted) honly).mono ?_ fun _ _ h => h
      rintro failed s' ⟨hsound', houtside, -⟩
      rw [Program.ends_pure]
      exact ⟨hsound', .cons honly houtside, fun hfailed => absurd hfailed (List.cons_ne_nil _ _)⟩

/-- What the deletes of a reconcile leave; `done` says whether they have come to their end. -/
structure DeletedSome (faults : ReconcileFaults) (keys : List VpnKey) (s : KeyTables) (done : Bool)
    (s' : KeyTables) : Prop where
  sound : Sound s'
  outside : Outside keys s s'
  remains : ∀ key ∈ keys, Remains key s'
  gone : done = true → ∀ key ∈ keys, s'.keys.find? key.id = none
  fails : done = false → faults.Fails

/-- **The deletes of a reconcile**, whatever calls fail. -/
theorem ends_deleteSurplus (hsound : Sound s) (hlisted : Listed keys s) :
    Program.Ends (deleteSurplus faults k keys) (fun r s' => DeletedSome faults keys s r.2 s')
      (fun _ _ => False) s := by
  induction keys generalizing k s with
  | nil => exact ⟨hsound, .rfl', List.forall_mem_nil _, fun _ => List.forall_mem_nil _, nofun⟩
  | cons key keys ih =>
    have hfind := hlisted.find key List.mem_cons_self
    have hchild := hsound.childType key (Rows.find?_eq_some_iff.1 hfind).1
      (hlisted.child key List.mem_cons_self)
    rw [deleteSurplus, Program.ends_bind, Program.ends_attempt]
    refine (ends_deleteChild hsound hfind hchild).mono ?_ ?_
    · intro _ s₁ hdeleted
      rw [if_pos rfl, Program.ends_bind]
      refine (ih (hsound.deleted hdeleted) (hlisted.tail hdeleted.only)).mono ?_ fun _ _ h => h
      rintro ⟨deleted, done⟩ s' hrest
      have hgone : s'.keys.find? key.id = none := by
        rw [hrest.outside.keys _ hlisted.tail_ne]
        exact hdeleted.row
      rw [Program.ends_pure]
      exact ⟨hrest.sound, .cons hdeleted.only hrest.outside,
        List.forall_mem_cons.2 ⟨Or.inl hgone, hrest.remains⟩,
        fun hdone => List.forall_mem_cons.2 ⟨hgone, hrest.gone hdone⟩, hrest.fails⟩
    · rintro - s₁ ⟨⟨c, hc⟩, hnot⟩
      rw [if_neg Bool.false_ne_true, Program.ends_pure]
      have houtside : Outside (key :: keys) s s₁ := .cons hnot.only .rfl'
      refine ⟨hsound.notDeleted hfind hnot, houtside, List.forall_mem_cons.2 ⟨?_, fun other hother => ?_⟩,
        nofun, fun _ => Or.inr (Or.inr (Or.inr (Or.inr (Or.inl ⟨k, c, hc⟩))))⟩
      · exact hnot.row.imp_right fun ⟨status, hrow, hstatus⟩ => ⟨status, hrow, hstatus.imp_right And.right⟩
      · refine Or.inr ⟨other.status, ?_, Or.inl rfl⟩
        rw [hnot.only.keys _ (hlisted.tail_ne other hother).symm]
        exact hlisted.find other (List.mem_cons_of_mem _ hother)

end VpnBot.KeyBundles
