import VpnBot.Bundles.ChildIssue

/-!
# The rollback of a bundle

The rollback knows the children that were attached before the failure.  Three things matter: what
the failing child itself has left (`Residue`), whether every earlier child can be deleted
(`UndoSucceeds`), and whether the bundle row goes; `ends_rollbackPartialBundle` puts them together,
also for a rollback that a cancellation ends.
-/

namespace VpnBot.Bundles

open Py Sys

/-! ### Nothing is left -/

/-- Nothing of a creation that began in `s` is left in `s'`: no bundle row, no client and no active
row. -/
structure NothingLeft (s s' : BundleState) : Prop where
  bundles : s'.bundles = s.bundles
  clients : s'.clients = s.clients
  keys : ∀ key ∈ s'.keys, key ∈ s.keys ∨ key.status ≠ .active

/-! ### The children that are attached -/

/-- The state with a key attached to the bundle for each member, newest first. -/
def grown (s : BundleState) (bundleId : ℕ) : List BundleMember → BundleState
  | [] => s
  | member :: older =>
    (grown s bundleId older).child (attachedRow (grown s bundleId older) member bundleId)
      member.hasClient

/-- The attached children with their ids, newest first. -/
def children (s : BundleState) (bundleId : ℕ) : List BundleMember → List (BundleMember × ℕ)
  | [] => []
  | member :: older => (member, (grown s bundleId older).freshKeyId) :: children s bundleId older

section Children

variable (s : BundleState) (bundleId : ℕ)

@[simp] theorem grown_bundles (members : List BundleMember) :
    (grown s bundleId members).bundles = s.bundles := by
  induction members with
  | nil => rfl
  | cons member older ih => exact ih

@[simp] theorem grown_xrayDegraded (members : List BundleMember) :
    (grown s bundleId members).xrayDegraded = s.xrayDegraded := by
  induction members with
  | nil => rfl
  | cons member older ih => exact ih

@[simp] theorem withResidue_bundles (residue : Residue) :
    (withResidue s residue).bundles = s.bundles := by
  obtain ⟨_ | ⟨row, live⟩, degraded⟩ := residue <;> rfl

theorem withResidue_xrayDegraded (residue : Residue) :
    (withResidue s residue).xrayDegraded = (residue.degraded || s.xrayDegraded) := by
  obtain ⟨_ | ⟨row, live⟩, degraded⟩ := residue <;> rfl

@[simp] theorem length_children (members : List BundleMember) :
    (children s bundleId members).length = members.length := by
  induction members with
  | nil => rfl
  | cons member older ih => rw [children, List.length_cons, List.length_cons, ih]

theorem unused_of_grown (members : List BundleMember) {id : ℕ}
    (h : (grown s bundleId members).Unused id) : s.Unused id := by
  induction members with
  | nil => exact h
  | cons member older ih =>
    refine ih ⟨fun key hkey => h.1 key (List.mem_append_left _ hkey), fun hmem => h.2 ?_⟩
    cases hlive : member.hasClient with
    | false => simpa [grown, BundleState.child, hlive] using hmem
    | true => simp [grown, BundleState.child, hlive, hmem]

theorem ne_of_mem_children {members : List BundleMember} {id : ℕ}
    (h : (grown s bundleId members).Unused id) :
    ∀ c ∈ children s bundleId members, id ≠ c.2 := by
  induction members with
  | nil => nofun
  | cons member older ih =>
    intro c hc
    rcases List.mem_cons.1 hc with rfl | hc
    · exact (h.1 _ (List.mem_append_right _ List.mem_cons_self)).symm
    · refine ih ?_ c hc
      exact unused_of_grown (grown s bundleId older) bundleId [member] h

end Children

/-- The residue is not the row or the client of the key. -/
def Residue.Apart (residue : Residue) (id : ℕ) : Prop :=
  ∀ row live, residue.row = some (row, live) → row.id ≠ id

namespace Residue.Apart

variable {s : BundleState} {residue : Residue} {id : ℕ}

theorem updateKey (h : residue.Apart id) (f : VpnKey → VpnKey) :
    (withResidue s residue).updateKey id f = withResidue (s.updateKey id f) residue := by
  obtain ⟨_ | ⟨row, live⟩, degraded⟩ := residue
  · rfl
  · exact congrArg (BundleState.degrade degraded) (BundleState.updateKey_child_of_ne (h row live rfl) f)

theorem removeClient (h : residue.Apart id) :
    (withResidue s residue).removeClient id = withResidue (s.removeClient id) residue := by
  obtain ⟨_ | ⟨row, live⟩, degraded⟩ := residue
  · rfl
  · exact congrArg (BundleState.degrade degraded) (BundleState.removeClient_child_of_ne (h row live rfl))

theorem hardDelete (h : residue.Apart id) :
    (withResidue s residue).hardDelete id = withResidue (s.hardDelete id) residue := by
  obtain ⟨_ | ⟨row, live⟩, degraded⟩ := residue
  · rfl
  · exact congrArg (BundleState.degrade degraded) (BundleState.hardDelete_child_of_ne (h row live rfl))

end Residue.Apart

theorem find?_withResidue {s : BundleState} {row : VpnKey} {id : ℕ} (hid : row.id = id)
    (h : s.Unused id) (live : Bool) (residue : Residue) :
    (withResidue (s.child row live) residue).keys.find? (fun key => key.id = id) = some row := by
  have hold : s.keys.find? (fun key => key.id = id) = none :=
    List.find?_eq_none.2 fun key hkey => by simpa using h.1 key hkey
  have hchild : (s.keys ++ [row]).find? (fun key => key.id = id) = some row := by
    rw [List.find?_append, hold]
    simp [hid]
  obtain ⟨_ | ⟨left, leftLive⟩, degraded⟩ := residue
  · exact hchild
  · change ((s.keys ++ [row]) ++ [left]).find? _ = some row
    rw [List.find?_append, hchild]
    rfl

/-! ### Deleting the children -/

section Faulty

variable (faults : Faults)

/-- The calls of the database that delete a child. -/
def undoCalls (member : BundleMember) : List UndoCall :=
  match member.keyType with
  | .xray => [.read, .setPending, .hardDelete]
  | .hysteria2 => [.read, .hardDelete]

def RollbackBackendSucceeds : Prop := ∀ k, faults (.undo k .removeClient) = none

/-- XRAY is not degraded when the child is a key of it, and the calls of the database that delete it succeed. -/
def Undoes (degraded : Bool) (k : ℕ) (member : BundleMember) : Prop :=
  (member.hasClient = true → degraded = false) ∧ ∀ c ∈ undoCalls member, faults (.undo k c) = none

/-- The children, newest first, can be deleted. -/
def UndoSucceeds (degraded : Bool) : List BundleMember → Prop
  | [] => True
  | member :: older => Undoes faults degraded older.length member ∧ UndoSucceeds degraded older

variable {faults}

theorem ends_undoCall {k : ℕ} {member : BundleMember} {degraded : Bool} (c : UndoCall) (hc : c ∈ undoCalls member)
    (effect : BundleState → BundleState) {P : Unit → BundleState → Prop} {s : BundleState}
    (h : faults (.undo k c) = none → P () (effect s)) :
    Program.Ends (call faults (.undo k c) effect) P (fun _ _ => ¬ Undoes faults degraded k member) s := by
  rw [ends_call]
  cases hfault : faults (.undo k c) with
  | none => exact h hfault
  | some fault =>
    rintro ⟨-, hall⟩
    cases hfault.symm.trans (hall c hc)

theorem ends_deleteChild (hbackend : RollbackBackendSucceeds faults) (k : ℕ)
    (member : BundleMember) (bundleId : ℕ) (s : BundleState) {residue : Residue}
    (hapart : residue.Apart s.freshKeyId) (hallowed : member.hasClient = true → s.xrayDegraded = false) :
    Program.Ends (deleteChild faults k member s.freshKeyId)
      (fun _ s' => Undoes faults residue.degraded k member ∧ s' = withResidue s residue)
      (fun _ _ => ¬ Undoes faults residue.degraded k member)
      (withResidue (s.child (attachedRow s member bundleId) member.hasClient) residue) := by
  have hid : (attachedRow s member bundleId).id = s.freshKeyId := rfl
  have hfind := find?_withResidue hid s.unused_freshKeyId
  cases hm : member.keyType with
  | xray =>
    have hcalls : undoCalls member = [.read, .setPending, .hardDelete] := by simp [undoCalls, hm]
    have hclient : member.hasClient = true := by simp [BundleMember.hasClient, hm]
    have hflag : (withResidue (s.child (attachedRow s member bundleId) true) residue).xrayDegraded =
        residue.degraded := by
      rw [withResidue_xrayDegraded]
      exact (congrArg (residue.degraded || ·) (hallowed hclient)).trans (Bool.or_false _)
    rw [hclient]
    simp only [deleteChild, hm, deleteXrayKey]
    rw [Program.ends_bind, ends_requireXrayAllowed, hflag]
    cases hdegraded : residue.degraded with
    | true => exact fun h => Bool.noConfusion (h.1 hclient)
    | false =>
      rw [if_neg Bool.false_ne_true, Program.ends_bind]
      refine ends_undoCall .read (by simp [hcalls]) _ fun hread => ?_
      rw [Program.ends_bind, Program.ends_get, id_eq, hfind]
      simp only
      rw [Program.ends_bind]
      refine ends_undoCall .setPending (by simp [hcalls]) _ fun hpending => ?_
      have hstatus : (attachedRow s member bundleId).status.accessMayExist = true := rfl
      rw [if_pos hstatus, Program.ends_bind, ends_tryException, ends_call, hbackend k]
      refine ends_undoCall .hardDelete (by simp [hcalls]) _ fun hdelete => ?_
      refine ⟨⟨fun _ => rfl, by simp [hcalls, hread, hpending, hdelete]⟩, ?_⟩
      rw [BundleState.setStatus, hapart.updateKey, BundleState.updateKey_child hid s.unused_freshKeyId,
        hapart.removeClient, BundleState.removeClient_child _ s.unused_freshKeyId, hapart.hardDelete,
        BundleState.hardDelete_child _ s.unused_freshKeyId] <;> rfl
  | hysteria2 =>
    have hcalls : undoCalls member = [.read, .hardDelete] := by simp [undoCalls, hm]
    have hclient : member.hasClient = false := by simp [BundleMember.hasClient, hm]
    rw [hclient]
    simp only [deleteChild, hm, deleteHysteria2Key]
    rw [Program.ends_bind]
    refine ends_undoCall .read (by simp [hcalls]) _ fun hread => ?_
    rw [Program.ends_bind, Program.ends_get, id_eq, hfind]
    refine ends_undoCall .hardDelete (by simp [hcalls]) _ fun hdelete => ?_
    refine ⟨⟨fun h => ?_, by simp [hcalls, hread, hdelete]⟩, ?_⟩
    · rw [hclient] at h
      cases h
    · rw [hapart.hardDelete, BundleState.hardDelete_child hid s.unused_freshKeyId]

theorem keeps_call (site : CallSite) {effect : BundleState → BundleState}
    (h : ∀ s, (effect s).bundles = s.bundles) :
    Program.Keeps BundleState.bundles (call faults site effect) := by
  unfold call
  split
  · exact Program.keeps_modify h
  · exact Program.keeps_call h

theorem keeps_requireXrayAllowed : Program.Keeps BundleState.bundles requireXrayAllowed := by
  intro s
  rw [ends_requireXrayAllowed]
  split_ifs <;> rfl

variable (faults) in
theorem keeps_deleteChild (k : ℕ) (member : BundleMember) (id : ℕ) :
    Program.Keeps BundleState.bundles (deleteChild faults k member id) := by
  unfold deleteChild
  cases member.keyType with
  | xray =>
    refine Program.Keeps.bind keeps_requireXrayAllowed fun _ => ?_
    refine Program.Keeps.bind (keeps_call _ fun _ => rfl) fun _ => Program.keeps_get.bind fun s => ?_
    cases s.keys.find? fun key => key.id = id with
    | none => exact Program.keeps_throw _
    | some key =>
      refine Program.Keeps.bind (keeps_call _ fun _ => rfl) fun _ => ?_
      split
      · refine Program.Keeps.bind ?_ fun _ => keeps_call _ fun _ => rfl
        refine Program.Keeps.tryExcept (keeps_call _ fun _ => rfl) fun e => ?_
        exact Program.Keeps.bind (keeps_call _ fun _ => rfl) fun _ => Program.keeps_throw _
      · exact keeps_call _ fun _ => rfl
  | hysteria2 =>
    refine Program.Keeps.bind (keeps_call _ fun _ => rfl) fun _ => Program.keeps_get.bind fun s => ?_
    cases s.keys.find? fun key => key.id = id with
    | none => exact Program.keeps_throw _
    | some key => exact keeps_call _ fun _ => rfl

theorem keeps_deleteChildren (cs : List (BundleMember × ℕ)) :
    Program.Keeps BundleState.bundles (deleteChildren faults cs) := by
  induction cs with
  | nil => exact Program.keeps_pure _
  | cons child older ih =>
    refine Program.Keeps.bind ?_ fun _ => ih.bind fun _ => Program.keeps_pure _
    refine Program.Keeps.tryExcept ?_ fun _ => Program.keeps_pure _
    exact (keeps_deleteChild faults older.length child.1 child.2).bind fun _ => Program.keeps_pure _

/-- **The children of a rollback**: every one is deleted, or some is reported as failed, or the task is
cancelled. -/
theorem ends_deleteChildren (hbackend : RollbackBackendSucceeds faults) (s : BundleState)
    (bundleId : ℕ) (members : List BundleMember) {residue : Residue}
    (hapart : ∀ c ∈ children s bundleId members, residue.Apart c.2)
    (hallowed : ∀ member ∈ members, member.hasClient = true → s.xrayDegraded = false) :
    Program.Ends (deleteChildren faults (children s bundleId members))
      (fun failed s' => (failed = [] ↔ UndoSucceeds faults residue.degraded members) ∧
        (failed = [] → s' = withResidue s residue))
      (fun _ _ => ¬ UndoSucceeds faults residue.degraded members)
      (withResidue (grown s bundleId members) residue) := by
  induction members with
  | nil => exact ⟨iff_of_true rfl trivial, fun _ => rfl⟩
  | cons member older ih =>
    have hdelete := ends_deleteChild hbackend older.length member bundleId (grown s bundleId older)
      (hapart _ List.mem_cons_self) (by simpa using hallowed member List.mem_cons_self)
    rw [children, deleteChildren, Program.ends_bind, ends_attempt, length_children]
    refine hdelete.mono ?_ ?_
    · rintro - _ ⟨hcalls, rfl⟩
      rw [Program.ends_bind]
      refine (ih (fun c hc => hapart c (List.mem_cons_of_mem _ hc)) fun m hm =>
        hallowed m (List.mem_cons_of_mem _ hm)).mono ?_ fun _ _ h hall => h hall.2
      rintro failed s' ⟨hsucc, hs'⟩
      exact ⟨hsucc.trans (and_iff_right hcalls).symm, hs'⟩
    · intro e s₁ hcalls
      by_cases hcancelled : e.isCancelled = true
      · rw [if_pos hcancelled]
        exact fun h => hcalls h.1
      · rw [if_neg hcancelled, Program.ends_bind]
        refine Program.ends_of_forall (fun failed s' => ?_) fun _ _ h => hcalls h.1
        exact ⟨iff_of_false (List.cons_ne_nil _ _) fun h => hcalls h.1, nofun⟩

/-! ### The rollback -/

theorem fresh_bundle {s : BundleState} {bundle : KeyBundle} (h : bundle ∈ s.bundles) :
    bundle.id ≠ s.freshBundleId :=
  (Nat.lt_succ_of_le (le_foldr_max (List.mem_append_left _ (List.mem_map_of_mem h)))).ne

theorem fresh_bundleId {s : BundleState} {key : VpnKey} (h : key ∈ s.keys) :
    key.bundleId ≠ some s.freshBundleId := by
  intro hb
  have hmem : s.freshBundleId ∈ s.keys.filterMap VpnKey.bundleId :=
    List.mem_filterMap.2 ⟨key, h, hb⟩
  exact (Nat.lt_succ_of_le (le_foldr_max (List.mem_append_right _ hmem))).ne rfl

theorem deleteBundle_insertBundle (s : BundleState) (label : ℕ) (kind : KeyBundleKind) :
    (s.insertBundle label kind).deleteBundle s.freshBundleId = s := by
  have hold : s.bundles.filter (fun bundle => bundle.id ≠ s.freshBundleId) = s.bundles :=
    List.filter_eq_self.2 fun bundle h => by simpa using fresh_bundle h
  simp only [BundleState.deleteBundle, BundleState.insertBundle, List.filter_append, hold]
  simp

theorem setBundleStatus_fresh (s : BundleState) (status : KeyBundleStatus) :
    s.setBundleStatus s.freshBundleId status = s := by
  have hold : (s.bundles.map fun bundle =>
      if bundle.id = s.freshBundleId then { bundle with status := status } else bundle) = s.bundles :=
    (List.map_congr_left fun bundle h => if_neg (fresh_bundle h)).trans (List.map_id _)
  rw [BundleState.setBundleStatus, hold]

theorem not_nothingLeft {s s' : BundleState}
    (h : s.freshBundleId ∈ s'.bundles.map KeyBundle.id) : ¬ NothingLeft s s' := by
  intro hleft
  rw [hleft.bundles] at h
  obtain ⟨bundle, hmem, hid⟩ := List.mem_map.1 h
  exact fresh_bundle hmem hid

theorem ends_bundleMark (s : BundleState) (bundleId : ℕ) {P : Unit → BundleState → Prop}
    (hkept : P () s) (hmarked : P () (s.setBundleStatus bundleId .deleteFailed)) :
    Program.Ends
      (do
        let _ ← attempt
          (call faults .bundleMark (BundleState.setBundleStatus bundleId .deleteFailed))
        return ())
      P (fun _ => P ()) s := by
  rw [Program.ends_bind, ends_attempt, ends_call]
  cases faults .bundleMark with
  | none => exact hmarked
  | some fault =>
    obtain ⟨call, cancelled⟩ := fault
    cases call <;> cases cancelled <;> assumption

theorem setBundleStatus_ids (s : BundleState) (bundleId : ℕ) (status : KeyBundleStatus) :
    (s.setBundleStatus bundleId status).bundles.map KeyBundle.id = s.bundles.map KeyBundle.id := by
  simp only [BundleState.setBundleStatus, List.map_map]
  refine List.map_congr_left fun bundle _ => ?_
  simp only [Function.comp]
  split <;> rfl

theorem ends_bundleMark_of_mem {s s₁ : BundleState} {H : Prop} (hh : ¬ H)
    (h : s.freshBundleId ∈ s₁.bundles.map KeyBundle.id) :
    Program.Ends
      (do
        let _ ← attempt
          (call faults .bundleMark (BundleState.setBundleStatus s.freshBundleId .deleteFailed))
        return ())
      (fun _ s' => NothingLeft s s' ↔ H) (fun _ s' => NothingLeft s s' ↔ H) s₁ := by
  refine ends_bundleMark s₁ _ (iff_of_false (not_nothingLeft h) hh) ?_
  refine iff_of_false (not_nothingLeft ?_) hh
  rwa [setBundleStatus_ids]

theorem nothingLeft_withResidue {s : BundleState} {residue : Residue} (h : residue.Beside s) :
    NothingLeft s (withResidue s residue) ↔ residue.Harmless := by
  obtain ⟨_ | ⟨row, live⟩, degraded⟩ := residue
  · exact iff_of_true ⟨rfl, rfl, fun key hkey => Or.inl hkey⟩ nofun
  · have hunused := h.fresh row live rfl
    constructor
    · rintro hleft row' live' ⟨⟩
      constructor
      · rcases hleft.keys row (List.mem_append_right _ List.mem_cons_self) with hold | hstatus
        · exact absurd rfl (hunused.1 row hold)
        · exact hstatus
      · have hclients := hleft.clients
        cases live with
        | false => rfl
        | true => exact absurd hclients (by simp [withResidue, BundleState.child, BundleState.degrade])
    · intro hharm
      obtain ⟨hstatus, rfl⟩ := hharm row live rfl
      refine ⟨rfl, rfl, fun key hkey => ?_⟩
      rcases List.mem_append.1 hkey with hold | hnew
      · exact Or.inl hold
      · rw [List.mem_singleton.1 hnew]
        exact Or.inr hstatus

theorem attached_withResidue {s : BundleState} (label : ℕ) (kind : KeyBundleKind)
    {residue : Residue}
    (h : ∃ key ∈ (withResidue (s.insertBundle label kind) residue).keys,
      key.bundleId = some s.freshBundleId) :
    ∃ row live, residue.row = some (row, live) ∧ row.bundleId = some s.freshBundleId := by
  obtain ⟨key, hkey, hb⟩ := h
  obtain ⟨_ | ⟨row, live⟩, degraded⟩ := residue
  · exact absurd hb (fresh_bundleId hkey)
  · rcases List.mem_append.1 hkey with hold | hnew
    · exact absurd hb (fresh_bundleId hold)
    · exact ⟨row, live, rfl, List.mem_singleton.1 hnew ▸ hb⟩

theorem deleteBundle_withResidue (s : BundleState) (bundleId : ℕ) (residue : Residue) :
    (withResidue s residue).deleteBundle bundleId = withResidue (s.deleteBundle bundleId) residue := by
  obtain ⟨_ | ⟨row, live⟩, degraded⟩ := residue <;> rfl

theorem setBundleStatus_withResidue (s : BundleState) (bundleId : ℕ) (status : KeyBundleStatus) (residue : Residue) :
    (withResidue s residue).setBundleStatus bundleId status = withResidue (s.setBundleStatus bundleId status) residue := by
  obtain ⟨_ | ⟨row, live⟩, degraded⟩ := residue <;> rfl

/-- **The rollback** leaves nothing just when the failed child has left nothing live, every earlier
child can be deleted and the bundle row can. -/
theorem ends_rollbackPartialBundle (hbackend : RollbackBackendSucceeds faults) (s : BundleState)
    (label : ℕ) (kind : KeyBundleKind) (older : List BundleMember) {residue : Residue}
    (h : residue.Beside (grown (s.insertBundle label kind) s.freshBundleId older))
    (hallowed : ∀ member ∈ older, member.hasClient = true → s.xrayDegraded = false) {H : Prop}
    (hH : H ↔ residue.Harmless ∧ UndoSucceeds faults residue.degraded older ∧ TakesEffect faults .bundleDelete) :
    Program.Ends
      (rollbackPartialBundle faults s.freshBundleId
        (children (s.insertBundle label kind) s.freshBundleId older).reverse)
      (fun _ s' => NothingLeft s s' ↔ H) (fun _ s' => NothingLeft s s' ↔ H)
      (withResidue (grown (s.insertBundle label kind) s.freshBundleId older) residue) := by
  have hbeside : residue.Beside s :=
    ⟨fun row live hr => unused_of_grown (s.insertBundle label kind) _ _ (h.fresh row live hr),
      h.attached⟩
  have hapart : ∀ c ∈ children (s.insertBundle label kind) s.freshBundleId older,
      residue.Apart c.2 := fun c hc row live hr =>
    ne_of_mem_children _ _ (h.fresh row live hr) c hc
  have hmem : ∀ s₁ : BundleState, s₁.bundles = (s.insertBundle label kind).bundles →
      s.freshBundleId ∈ s₁.bundles.map KeyBundle.id := by
    intro s₁ h₁
    rw [h₁]
    simp [BundleState.insertBundle]
  rw [rollbackPartialBundle, List.reverse_reverse, Program.ends_bind]
  refine ((ends_deleteChildren hbackend (s.insertBundle label kind) s.freshBundleId older hapart hallowed).and
    (keeps_deleteChildren _ _)).mono ?_ ?_
  · rintro failed s₁ ⟨⟨hfailed, hs₁⟩, hbundles⟩
    rw [withResidue_bundles, grown_bundles] at hbundles
    -- the bundle row is deleted only when every older child is gone
    by_cases hempty : failed = []
    · have hundo : UndoSucceeds faults residue.degraded older := hfailed.1 hempty
      obtain rfl := hs₁ hempty
      rw [hempty, List.isEmpty_nil, if_pos rfl, Program.ends_bind, ends_attempt, deleteBundleRow,
        Program.ends_bind, Program.ends_get]
      -- a row that is still attached is the one of the failed child, and then it is active
      by_cases hattached : ∃ key ∈ (withResidue (s.insertBundle label kind) residue).keys,
          key.bundleId = some s.freshBundleId
      · have hany : (withResidue (s.insertBundle label kind) residue).keys.any
            (fun key => key.bundleId = some s.freshBundleId) = true := by simpa using hattached
        rw [if_pos hany]
        obtain ⟨row, live, hr, hb⟩ := attached_withResidue label kind hattached
        have hactive := hbeside.attached row live hr (by rw [hb]; exact Option.some_ne_none _)
        exact ends_bundleMark_of_mem (fun hh => ((hH.1 hh).1 row live hr).1 hactive) (hmem _ hbundles)
      · have hany : ¬ (withResidue (s.insertBundle label kind) residue).keys.any
            (fun key => key.bundleId = some s.freshBundleId) = true := by simpa using hattached
        have hclean : TakesEffect faults .bundleDelete → (NothingLeft s (withResidue s residue) ↔ H) := fun hh =>
          (nothingLeft_withResidue hbeside).trans ((and_iff_left ⟨hundo, hh⟩).symm.trans hH.symm)
        rw [if_neg hany, ends_call, deleteBundle_withResidue, deleteBundle_insertBundle]
        cases hdelete : faults .bundleDelete with
        | none => exact hclean (by simp [TakesEffect, hdelete])
        | some fault =>
          -- what the deletion leaves when it fails depends on whether it has taken effect
          have heffect := takesEffect_iff hdelete
          obtain ⟨call, cancelled⟩ := fault
          cases call with
          | before =>
            have hnot : ¬ H := fun hh => absurd (heffect.1 (hH.1 hh).2.2) (by simp)
            cases cancelled with
            | true => exact iff_of_false (not_nothingLeft (hmem _ hbundles)) hnot
            | false => exact ends_bundleMark_of_mem hnot (hmem _ hbundles)
          | after =>
            cases cancelled with
            | true => exact hclean (heffect.2 rfl)
            | false =>
              refine ends_bundleMark (withResidue s residue) _ (hclean (heffect.2 rfl)) ?_
              rw [setBundleStatus_withResidue, setBundleStatus_fresh]
              exact hclean (heffect.2 rfl)
    · have hnot : failed.isEmpty = false := by simpa using hempty
      rw [hnot]
      exact ends_bundleMark_of_mem (fun hh => hempty (hfailed.2 (hH.1 hh).2.1)) (hmem _ hbundles)
  · rintro e s₁ ⟨hundo, hbundles⟩
    rw [withResidue_bundles, grown_bundles] at hbundles
    exact iff_of_false (not_nothingLeft (hmem _ hbundles)) fun hh => hundo (hH.1 hh).2.1

end Faulty

end VpnBot.Bundles
