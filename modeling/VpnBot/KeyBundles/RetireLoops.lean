import VpnBot.KeyBundles.Provision

/-!
# The loops over the children

`revoke_bundle` goes on after a child that could not be revoked, `delete_bundle` stops.  In both loops
each child meets its own row as it was at the start, since the turns before it touch other rows
(`Outside`); so what a loop leaves of a child is what its own turn leaves (`ChildEnd`).
-/

namespace VpnBot.KeyBundles

open Py Sys

/-- Nothing but the rows and clients of the listed keys has changed. -/
structure Outside (l : List VpnKey) (s s' : KeyTables) : Prop where
  keys : ∀ j, (∀ key ∈ l, j ≠ key.id) → s'.keys.find? j = s.keys.find? j
  clients : ∀ j, (∀ key ∈ l, j ≠ key.id) → (j ∈ s'.clients ↔ j ∈ s.clients)
  bundles : s'.bundles = s.bundles

/-- The keys are rows of the table, children of a bundle, and no key is listed twice. -/
structure Listed (keys : List VpnKey) (s : KeyTables) : Prop where
  nodup : (keys.map VpnKey.id).Nodup
  find : ∀ key ∈ keys, s.keys.find? key.id = some key
  child : ∀ key ∈ keys, key.bundleId ≠ none

variable {faults : Faults} {key : VpnKey} {keys : List VpnKey} {s s₁ s' : KeyTables} {id k : ℕ}

theorem listed_childrenOf : Listed (s.childrenOf id) s := by
  refine ⟨?_, fun key hkey => ?_, fun key hkey => ?_⟩
  · have hsorted := s.keys.sorted.filter fun key => key.bundleId = some id
    exact List.pairwise_map.2 (hsorted.imp fun h => h.ne)
  · exact Rows.find?_eq_some_iff.2 ⟨List.mem_of_mem_filter hkey, rfl⟩
  · have hbundle : key.bundleId = some id := by simpa using (List.mem_filter.1 hkey).2
    rw [hbundle]
    nofun

namespace Outside

theorem rfl' : Outside keys s s := ⟨fun _ _ => rfl, fun _ _ => Iff.rfl, rfl⟩

/-- The first turn, and then the others. -/
theorem cons (h : Only key.id s s₁) (h' : Outside keys s₁ s') : Outside (key :: keys) s s' := by
  refine ⟨fun j hj => ?_, fun j hj => ?_, h'.bundles.trans h.bundles⟩
  · obtain ⟨hne, hrest⟩ := List.forall_mem_cons.1 hj
    exact (h'.keys j hrest).trans (h.keys j hne)
  · obtain ⟨hne, hrest⟩ := List.forall_mem_cons.1 hj
    exact (h'.clients j hrest).trans (h.clients j hne)

end Outside

namespace Listed

theorem tail_ne (h : Listed (key :: keys) s) : ∀ other ∈ keys, key.id ≠ other.id := by
  have hnot := (List.nodup_cons.1 h.nodup).1
  intro other hother heq
  exact hnot (heq ▸ List.mem_map_of_mem hother)

theorem tail (h : Listed (key :: keys) s) (honly : Only key.id s s₁) : Listed keys s₁ := by
  refine ⟨(List.nodup_cons.1 h.nodup).2, fun other hother => ?_,
    fun other hother => h.child other (List.mem_cons_of_mem _ hother)⟩
  rw [honly.keys _ (h.tail_ne other hother).symm]
  exact h.find other (List.mem_cons_of_mem _ hother)

end Listed

/-! ### Revoking the children -/

/-- What the turn of a child leaves: its row closed, without a client, or something has failed. -/
inductive ChildEnd (fault : ChildFaults) (key : VpnKey) (s s' : KeyTables) : Prop
  | revoked (status : VpnKeyStatus) (returns : RevokeReturns fault key)
      (row : s'.keys.find? key.id = some { key with status := status })
      (closed : isClosed status = true) (absent : key.keyType = .xray → key.id ∉ s'.clients)
  | failed (status : VpnKeyStatus) (raises : ¬ RevokeReturns fault key)
      (row : s'.keys.find? key.id = some { key with status := status })
      (spared : SparesAccess fault key.keyType → s.Live key → s'.Live { key with status := status })

namespace ChildEnd

variable {fault : ChildFaults}

theorem row (h : ChildEnd fault key s s') :
    ∃ status, s'.keys.find? key.id = some { key with status := status } := by
  cases h with
  | revoked status _ hrow => exact ⟨status, hrow⟩
  | failed status _ hrow => exact ⟨status, hrow⟩

theorem live_congr {status : VpnKeyStatus} (h : key.id ∈ s'.clients ↔ key.id ∈ s₁.clients) :
    s'.Live { key with status := status } ↔ s₁.Live { key with status := status } := by
  unfold KeyTables.Live
  cases key.keyType with
  | xray => exact h
  | hysteria2 => exact Iff.rfl
  | awg => exact Iff.rfl

theorem outside (h : ChildEnd fault key s s₁) (hrest : Outside keys s₁ s')
    (hne : ∀ other ∈ keys, key.id ≠ other.id) : ChildEnd fault key s s' := by
  have hrow := hrest.keys key.id hne
  have hclient := hrest.clients key.id hne
  cases h with
  | revoked status hreturns hfind hclosed habsent =>
    refine .revoked status hreturns (hrow.trans hfind) hclosed fun htype => ?_
    rw [hclient]
    exact habsent htype
  | failed status hraises hfind hspared =>
    refine .failed status hraises (hrow.trans hfind) fun hspares hlive => ?_
    exact (live_congr hclient).2 (hspared hspares hlive)

theorem before (h : ChildEnd fault key s₁ s') (hclient : key.id ∈ s₁.clients ↔ key.id ∈ s.clients) :
    ChildEnd fault key s s' := by
  cases h with
  | revoked status hreturns hfind hclosed habsent =>
    exact .revoked status hreturns hfind hclosed habsent
  | failed status hraises hfind hspared =>
    exact .failed status hraises hfind fun hspares hlive =>
      hspared hspares ((live_congr hclient).2 hlive)

end ChildEnd

/-- What the loop of `revoke_bundle` leaves. -/
structure RevokedAll (faults : Faults) (k : ℕ) (keys : List VpnKey) (s : KeyTables)
    (failed : List ℕ) (s' : KeyTables) : Prop where
  sound : Sound s'
  outside : Outside keys s s'
  none_failed : failed = [] ↔
    ∀ i key, keys[i]? = some key → RevokeReturns (faults.child (k + i)) key
  ends : ∀ i key, keys[i]? = some key → ChildEnd (faults.child (k + i)) key s s'

theorem forall_getElem?_cons {α : Type} {a : α} {l : List α} {p : ℕ → α → Prop} :
    (∀ i b, (a :: l)[i]? = some b → p i b) ↔ p 0 a ∧ ∀ i b, l[i]? = some b → p (i + 1) b := by
  constructor
  · exact fun h => ⟨h 0 a rfl, fun i b hb => h (i + 1) b hb⟩
  · rintro ⟨hzero, hsucc⟩ i b hb
    cases i with
    | zero =>
      cases hb
      exact hzero
    | succ i => exact hsucc i b hb

theorem RevokedAll.cons (revoked : Bool) {failed : List ℕ} (hlisted : Listed (key :: keys) s)
    (honly : Only key.id s s₁) (hend : ChildEnd (faults.child k) key s s₁)
    (hrevoked : revoked = true ↔ RevokeReturns (faults.child k) key)
    (hrest : RevokedAll faults (k + 1) keys s₁ failed s') :
    RevokedAll faults k (key :: keys) s (if revoked then failed else key.id :: failed) s' := by
  refine ⟨hrest.sound, .cons honly hrest.outside, ?_, ?_⟩
  · rw [forall_getElem?_cons, Nat.add_zero, ← hrevoked]
    have hnone := hrest.none_failed
    simp only [Nat.add_assoc, Nat.add_comm 1] at hnone
    cases revoked with
    | true => simpa using hnone
    | false => simp
  · rw [forall_getElem?_cons]
    refine ⟨hend.outside hrest.outside hlisted.tail_ne, fun i other hother => ?_⟩
    have hmem := List.mem_of_getElem? hother
    have hi := hrest.ends i other hother
    rw [Nat.add_assoc, Nat.add_comm 1] at hi
    exact hi.before (honly.clients _ (hlisted.tail_ne other hmem).symm)

/-- **The loop of `revoke_bundle`**, whatever calls for the children fail. -/
theorem ends_revokeChildren (hsound : Sound s) (hlisted : Listed keys s) :
    Program.Ends (revokeChildren faults k keys) (fun failed s' => RevokedAll faults k keys s failed s')
      (fun _ _ => False) s := by
  induction keys generalizing k s with
  | nil =>
    exact ⟨hsound, .rfl', iff_of_true rfl fun _ _ h => absurd h (by simp), fun _ _ h => absurd h (by simp)⟩
  | cons key keys ih =>
    have hfind := hlisted.find key List.mem_cons_self
    have hchild := hsound.childType key (Rows.find?_eq_some_iff.1 hfind).1
      (hlisted.child key List.mem_cons_self)
    rw [revokeChildren, Program.ends_bind, Program.ends_attempt]
    refine (ends_revokeChild hsound hfind hchild).mono ?_ ?_
    · rintro - s₁ ⟨hreturns, ⟨⟨status, hleft, hclosed⟩, habsent⟩⟩
      have hsound₁ : Sound s₁ :=
        hsound.left hfind hleft (written_of_isClosed hclosed) fun htype _ => habsent htype
      rw [Program.ends_bind]
      refine (ih hsound₁ (hlisted.tail hleft.only)).mono ?_ fun _ _ h => h
      intro failed s' hrest
      exact .cons true hlisted hleft.only
        (.revoked status hreturns hleft.row hclosed habsent) (iff_of_true rfl hreturns) hrest
    · rintro - s₁ ⟨hraises, status, hnot⟩
      have hsound₁ : Sound s₁ := hsound.left hfind hnot.left hnot.written hnot.closed
      rw [Program.ends_bind]
      refine (ih hsound₁ (hlisted.tail hnot.left.only)).mono ?_ fun _ _ h => h
      intro failed s' hrest
      exact .cons false hlisted hnot.left.only
        (.failed status hraises hnot.left.row hnot.spared) (iff_of_false nofun hraises) hrest

/-! ### The row of the bundle -/

variable {Q : BundleError → KeyTables → Prop} {P : Unit → KeyTables → Prop}
  {allowed : KeyBundleStatus → Bool}

section Bundle

variable {bundle : KeyBundle} {status : KeyBundleStatus} {f : KeyBundle → KeyBundle}

theorem find?_updateBundle (hf : ∀ bundle, (f bundle).id = bundle.id) :
    (s.updateBundle id f hf).bundles.find? id = (s.bundles.find? id).map f := by
  unfold KeyTables.updateBundle
  exact Rows.find?_update_self hf

theorem find?_setBundleStatus
    (h : s.bundles.find? id = some bundle) (hallowed : allowed bundle.status = true) :
    (s.setBundleStatus id status allowed).bundles.find? id = some { bundle with status := status } := by
  unfold KeyTables.setBundleStatus
  rw [find?_updateBundle, h, Option.map_some, if_pos hallowed]

theorem Sound.updateBundle (h : Sound s) (hf : ∀ bundle, (f bundle).id = bundle.id)
    (hstatus : ∀ bundle, bundle.status ≠ .deleted → (f bundle).status ≠ .deleted) :
    Sound (s.updateBundle id f hf) := by
  refine ⟨h.written, h.childType, h.closed, fun bundle hbundle => ?_⟩
  rcases (Rows.mem_update hf).1 hbundle with ⟨hold, -⟩ | ⟨old, hold, -, rfl⟩
  · exact h.bundles bundle hold
  · exact hstatus old (h.bundles old hold)

theorem Sound.setBundleStatus (h : Sound s)
    (hstatus : status ≠ .deleted) : Sound (s.setBundleStatus id status allowed) := by
  refine h.updateBundle _ fun bundle hbundle => ?_
  show (if allowed bundle.status then status else bundle.status) ≠ .deleted
  split_ifs
  · exact hstatus
  · exact hbundle

theorem Sound.deleteBundle (h : Sound s) : Sound (s.deleteBundle id) :=
  ⟨h.written, h.childType, h.closed, fun bundle hbundle => h.bundles bundle (Rows.mem_delete.1 hbundle).1⟩

theorem ends_bundleWrite {c : BundleCall} {effect : KeyTables → KeyTables}
    (hnone : faults.bundle c = none → P () (effect s))
    (hbefore : faults.bundle c = some .before → Q .raised s)
    (hafter : faults.bundle c = some .after → Q .raised (effect s)) :
    Program.Ends (bundleWrite faults c effect) P Q s := by
  rw [bundleWrite, Program.ends_call]
  match hfault : faults.bundle c with
  | none => exact hnone hfault
  | some .before => exact hbefore hfault
  | some .after => exact hafter hfault

theorem ends_bundleRead {c : BundleCall} (hnone : faults.bundle c = none → P () s)
    (hfails : faults.bundle c ≠ none → Q .raised s) :
    Program.Ends (bundleWrite faults c fun s => s) P Q s :=
  Program.ends_call_of hnone hfails hfails

theorem ends_getBundle {P : KeyBundle → KeyTables → Prop} (h : s.bundles.find? id = some bundle)
    (hP : P bundle s) : Program.Ends (getBundle id) P Q s := by
  rw [getBundle, Program.ends_bind, Program.ends_get, h]
  exact hP

/-- The first write of both operations. -/
theorem ends_setStatusFrom (h : s.bundles.find? id = some bundle)
    (hallowed : allowed bundle.status = true)
    (hnone : faults.bundle .setPending = none → P () (s.setBundleStatus id status allowed))
    (hbefore : faults.bundle .setPending = some .before → Q .raised s)
    (hafter : faults.bundle .setPending = some .after → Q .raised (s.setBundleStatus id status allowed)) :
    Program.Ends (setStatusFrom faults allowed id status) P Q s := by
  rw [setStatusFrom, Program.ends_bind, Program.ends_get, Program.ends_bind, h]
  refine ends_bundleWrite (fun hf => ?_) hbefore hafter
  have hany : (some bundle).any (fun bundle => allowed bundle.status) = true := by simpa using hallowed
  rw [if_pos hany]
  exact hnone hf

theorem ends_markBundleFailed
    (hmarked : P () (s.setBundleStatus id .deleteFailed fun _ => true)) (hleft : P () s) :
    Program.Ends (markBundleFailed faults id) P Q s := by
  rw [markBundleFailed, Program.ends_bind, Program.ends_attempt]
  exact ends_bundleWrite (fun _ => hmarked) (fun _ => hleft) fun _ => hmarked

end Bundle

/-! ### Deleting the children -/

/-- The bundle and what is left of it can be deleted once more. -/
structure Deletable (id : ℕ) (s : KeyTables) : Prop where
  sound : Sound s
  row : (s.bundles.find? id).isSome

theorem Deletable.markFailed (h : Deletable id s) :
    Deletable id (s.setBundleStatus id .deleteFailed fun _ => true) := by
  refine ⟨h.sound.setBundleStatus nofun, ?_⟩
  unfold KeyTables.setBundleStatus
  rw [find?_updateBundle, Option.isSome_map]
  exact h.row

/-- **The loop of `delete_bundle`**: every child is deleted, or a call for one has failed. -/
theorem ends_deleteChildren (hdeletable : Deletable id s) (hlisted : Listed keys s) :
    Program.Ends (deleteChildren faults id k keys)
      (fun _ s' => Deletable id s' ∧ Outside keys s s' ∧ ∀ key ∈ keys, s'.keys.find? key.id = none)
      (fun _ s' => (∃ i c, faults.child i c ≠ none) ∧ Deletable id s') s := by
  induction keys generalizing k s with
  | nil => exact ⟨hdeletable, .rfl', List.forall_mem_nil _⟩
  | cons key keys ih =>
    have hfind := hlisted.find key List.mem_cons_self
    have hchild := hdeletable.sound.childType key (Rows.find?_eq_some_iff.1 hfind).1
      (hlisted.child key List.mem_cons_self)
    rw [deleteChildren, Program.ends_bind, Program.ends_tryCatch]
    refine (ends_deleteChild hdeletable.sound hfind hchild).mono ?_ ?_
    · intro _ s₁ hdeleted
      have hdeletable₁ : Deletable id s₁ := by
        refine ⟨hdeletable.sound.deleted hdeleted, ?_⟩
        rw [hdeleted.only.bundles]
        exact hdeletable.row
      refine (ih hdeletable₁ (hlisted.tail hdeleted.only)).mono ?_ fun _ _ h => h
      rintro - s' ⟨hsound, hrest, hgone⟩
      refine ⟨hsound, .cons hdeleted.only hrest, List.forall_mem_cons.2 ⟨?_, hgone⟩⟩
      rw [hrest.keys _ hlisted.tail_ne]
      exact hdeleted.row
    · rintro e s₁ ⟨⟨c, hc⟩, hnot⟩
      have hdeletable₁ : Deletable id s₁ := by
        refine ⟨hdeletable.sound.notDeleted hfind hnot, ?_⟩
        rw [hnot.only.bundles]
        exact hdeletable.row
      rw [Program.ends_bind]
      exact ends_markBundleFailed ⟨⟨k, c, hc⟩, hdeletable₁.markFailed⟩ ⟨⟨k, c, hc⟩, hdeletable₁⟩

end VpnBot.KeyBundles
