import VpnBot.KeyBundles.CompositionPlan
import VpnBot.KeyBundles.CompositionLoops

/-!
# What a reconcile leaves

After all creates every slot of the target has an active child, and the deletes touch only children that
are over; so whatever deletes fail, the state that they leave is `Advanced`: `Reached`, with no child over
that was not over before.  `ends_reconcileComposition` says how a reconcile ends, for all faults.
-/

namespace VpnBot.KeyBundles

open Py Sys
open Bundles (BundleMember KeyBundleKind)

variable {env : Environment} {now now' : ℕ} {target : Option KeyBundleKind} {kind : KeyBundleKind}
  {bundle bundle' : KeyBundle} {wanted : List Slot} {expiresAt : Option ℕ} {plan : ReconcilePlan}
  {members : List BundleMember} {new : List VpnKey} {row : VpnKey} {done : Bool} {s s₁ s' : KeyTables}
  {id : ℕ} {faults : ReconcileFaults}

/-! ### The children after the deletes -/

/-- Every slot of the target has its child, and a child that is over was over before. -/
structure Advanced (wanted : List Slot) (id : ℕ) (expiresAt : Option ℕ) (s s' : KeyTables) : Prop where
  reached : Reached wanted id expiresAt s'
  surplus : ∀ key ∈ surplus wanted (s'.childrenOf id),
    ∃ old ∈ surplus wanted (s.childrenOf id), old.keyType = key.keyType

/-- Where a child comes from: it was there and stays, it was there and is over, or it is new. -/
inductive Origin (wanted : List Slot) (id : ℕ) (new : List VpnKey) (s : KeyTables) (row : VpnKey) : Prop
  | kept (child : row ∈ s.childrenOf id) (active : row.status = .active) (slot : childSlot row ∈ wanted)
  | left (old : VpnKey) (status : VpnKeyStatus) (surplus : old ∈ surplus wanted (s.childrenOf id))
      (eq : row = { old with status := status }) (status_eq : status = old.status ∨ isRemoval status = true)
  | created (key : VpnKey) (mem : key ∈ new) (eq : row = key.attachTo id)

theorem lt_next_of_child (h : row ∈ s.childrenOf id) : row.id < s.keys.next :=
  s.keys.below row (List.mem_of_mem_filter h)

theorem listed_surplus (hgrown : Grown id expiresAt new s s₁) :
    Listed (surplus wanted (s.childrenOf id)) s₁ := by
  have hall : Listed (s.childrenOf id) s := listed_childrenOf
  refine ⟨hall.nodup.sublist ((List.filter_sublist).map _), fun key hkey => ?_, fun key hkey => ?_⟩
  · have hchild := (mem_surplus.1 hkey).1
    rw [hgrown.old _ (lt_next_of_child hchild)]
    exact hall.find key hchild
  · exact hall.child key (mem_surplus.1 hkey).1

theorem origin_of_child (hgrown : Grown id expiresAt new s s₁)
    (hdeleted : DeletedSome faults (surplus wanted (s.childrenOf id)) s₁ done s') (hrow : row ∈ s'.childrenOf id) : Origin wanted id new s row := by
  obtain ⟨hfind, hbundle⟩ := mem_childrenOf.1 hrow
  by_cases hover : ∃ key ∈ surplus wanted (s.childrenOf id), row.id = key.id
  · obtain ⟨key, hkey, hid⟩ := hover
    rw [hid] at hfind
    rcases hdeleted.remains key hkey with hnone | ⟨status, hleft, hstatus⟩
    · exact nomatch hnone.symm.trans hfind
    · exact .left key status hkey (Option.some.inj (hleft.symm.trans hfind)).symm hstatus
  · have hnot : ∀ key ∈ surplus wanted (s.childrenOf id), row.id ≠ key.id := fun key hkey hid =>
      hover ⟨key, hkey, hid⟩
    rw [hdeleted.outside.keys _ hnot] at hfind
    rcases Nat.lt_or_ge row.id s.keys.next with hlt | hge
    · -- an old row
      rw [hgrown.old _ hlt] at hfind
      have hchild : row ∈ s.childrenOf id := mem_childrenOf.2 ⟨hfind, hbundle⟩
      by_contra hother
      refine hnot row (mem_surplus.2 ⟨hchild, fun hactive hslot => ?_⟩) rfl
      exact hother (.kept hchild hactive hslot)
    · -- a new row
      rcases hgrown.fresh row (mem_rows_iff_find?.2 hfind) hge with hnone | hnew
      · exact nomatch hnone.symm.trans hbundle
      · obtain ⟨key, hkey, hid⟩ := List.mem_map.1 hnew
        rw [← hid] at hfind
        refine .created key hkey ?_
        rcases (hgrown.found key hkey).2 with hsame | hattached
        · obtain rfl := Option.some.inj (hsame.symm.trans hfind)
          obtain ⟨i, keyType, transport, profile, relay, status, bundleId, e⟩ := key
          obtain rfl : bundleId = some id := hbundle
          rfl
        · exact (Option.some.inj (hattached.symm.trans hfind)).symm

theorem mem_childrenOf_of_new {key : VpnKey} (hgrown : Grown id expiresAt new s s₁)
    (hdeleted : DeletedSome faults (surplus wanted (s.childrenOf id)) s₁ done s')
    (hall : CreatedAll id members new s₁) (hkey : key ∈ new) :
    key.attachTo id ∈ s'.childrenOf id := by
  refine mem_childrenOf.2 ⟨?_, rfl⟩
  have hle := (hgrown.found key hkey).1
  have hnot : ∀ old ∈ surplus wanted (s.childrenOf id), key.id ≠ old.id := by
    intro old hold heq
    have hlt := lt_next_of_child (mem_surplus.1 hold).1
    omega
  exact (hdeleted.outside.keys _ hnot).trans (hall.attached key hkey)

theorem mem_childrenOf_of_kept (hgrown : Grown id expiresAt new s s₁)
    (hdeleted : DeletedSome faults (surplus wanted (s.childrenOf id)) s₁ done s') (hrow : row ∈ s.childrenOf id) (hactive : row.status = .active)
    (hslot : childSlot row ∈ wanted) : row ∈ s'.childrenOf id := by
  obtain ⟨hfind, hbundle⟩ := mem_childrenOf.1 hrow
  have hnot : ∀ old ∈ surplus wanted (s.childrenOf id), row.id ≠ old.id := by
    intro old hold heq
    obtain ⟨hchild, hout⟩ := mem_surplus.1 hold
    obtain rfl : row = old :=
      Rows.eq_of_key_eq (List.mem_of_mem_filter hrow) (List.mem_of_mem_filter hchild) heq
    exact hout hactive hslot
  refine mem_childrenOf.2 ⟨?_, hbundle⟩
  rw [hdeleted.outside.keys _ hnot, hgrown.old _ (lt_next_of_child hrow)]
  exact hfind

theorem mem_missing {member : BundleMember} {included : List BundleMember} {children : List VpnKey} :
    member ∈ missing included children ↔
      member ∈ included ∧ memberSlot member ∉ (activeKeys children).map childSlot := by
  simp [missing]

theorem slot_of_new {key : VpnKey}
    (hall : CreatedAll id (missing (env.included kind) (s.childrenOf id)) new s₁) (hkey : key ∈ new) :
    childSlot key ∈ env.slots kind ∧
      childSlot key ∉ (activeKeys (s.childrenOf id)).map childSlot := by
  have hmem : childSlot key ∈ new.map childSlot := List.mem_map_of_mem hkey
  rw [hall.slots] at hmem
  obtain ⟨member, hmember, hslot⟩ := List.mem_map.1 hmem
  obtain ⟨hincluded, hfree⟩ := mem_missing.1 hmember
  rw [← hslot]
  exact ⟨List.mem_map_of_mem hincluded, hfree⟩

theorem active_of_origin
    (hall : CreatedAll id (missing (env.included kind) (s.childrenOf id)) new s₁)
    (h : Origin (env.slots kind) id new s row) (hactive : row.status = .active) :
    row ∈ activeKeys (s.childrenOf id) ∨
      ∃ key ∈ new, row = key.attachTo id ∧ childSlot key ∈ env.slots kind ∧
        childSlot key ∉ (activeKeys (s.childrenOf id)).map childSlot := by
  cases h with
  | kept hchild _ _ => exact Or.inl (mem_activeKeys.2 ⟨hchild, hactive⟩)
  | left old status hover heq hstatus =>
    subst heq
    rcases hstatus with rfl | hremoval
    · exact Or.inl (mem_activeKeys.2 ⟨(mem_surplus.1 hover).1, hactive⟩)
    · rw [show status = .active from hactive] at hremoval
      cases hremoval
  | created key hkey heq =>
    obtain ⟨hslot, hfree⟩ := slot_of_new hall hkey
    exact Or.inr ⟨key, hkey, heq, hslot, hfree⟩

theorem nodup_after (horderly : Orderly (env.slots kind) now bundle (s.childrenOf id) expiresAt)
    (hgrown : Grown id expiresAt new s s₁)
    (hdeleted : DeletedSome faults (surplus (env.slots kind) (s.childrenOf id)) s₁ done s')
    (hall : CreatedAll id (missing (env.included kind) (s.childrenOf id)) new s₁) :
    ((activeKeys (s'.childrenOf id)).map childSlot).Nodup := by
  have horigin : ∀ row ∈ activeKeys (s'.childrenOf id), row ∈ activeKeys (s.childrenOf id) ∨
      ∃ key ∈ new, row = key.attachTo id ∧ childSlot key ∈ env.slots kind ∧
        childSlot key ∉ (activeKeys (s.childrenOf id)).map childSlot := by
    intro row hrow
    obtain ⟨hchild, hactive⟩ := mem_activeKeys.1 hrow
    exact active_of_origin hall (origin_of_child hgrown hdeleted hchild) hactive
  have hnewNodup : (new.map childSlot).Nodup := by
    rw [hall.slots]
    exact (nodup_slots env kind).sublist ((List.filter_sublist).map memberSlot)
  have hids : ((s'.childrenOf id).map VpnKey.id).Nodup := (listed_childrenOf (s := s')).nodup
  have hnodup : (activeKeys (s'.childrenOf id)).Nodup := (List.Nodup.of_map _ hids).filter _
  refine (List.nodup_map_iff_inj_on hnodup).2 fun a ha b hb hslot => ?_
  rcases horigin a ha with hold | ⟨key, hkey, rfl, -, hfree⟩
  · rcases horigin b hb with hold' | ⟨key', hkey', rfl, -, hfree'⟩
    · exact List.inj_on_of_nodup_map horderly.nodup hold hold' hslot
    · rw [childSlot_attachTo] at hslot
      exact absurd (hslot ▸ List.mem_map_of_mem hold) hfree'
  · rw [childSlot_attachTo] at hslot
    rcases horigin b hb with hold' | ⟨key', hkey', rfl, -, -⟩
    · exact absurd (hslot ▸ List.mem_map_of_mem hold') hfree
    · rw [childSlot_attachTo] at hslot
      rw [List.inj_on_of_nodup_map hnewNodup hkey hkey' hslot]

/-- **After the creates and whatever deletes, every slot of the target has its child.** -/
theorem advanced_of_deletes (horderly : Orderly (env.slots kind) now bundle (s.childrenOf id) expiresAt)
    (hgrown : Grown id expiresAt new s s₁)
    (hdeleted : DeletedSome faults (surplus (env.slots kind) (s.childrenOf id)) s₁ done s')
    (hall : CreatedAll id (missing (env.included kind) (s.childrenOf id)) new s₁) :
    Advanced (env.slots kind) id expiresAt s s' := by
  have horigin : ∀ row ∈ s'.childrenOf id, Origin (env.slots kind) id new s row :=
    fun row => origin_of_child hgrown hdeleted
  have hnewActive : ∀ key ∈ new, (key.attachTo id).status = .active := fun key hkey =>
    (hgrown.provisioned key hkey).status
  refine ⟨⟨hdeleted.sound, fun slot hslot => ?_, nodup_after horderly hgrown hdeleted hall,
    fun row hrow => ?_, ?_⟩, fun row hrow => ?_⟩
  · by_cases hfree : slot ∈ (activeKeys (s.childrenOf id)).map childSlot
    · obtain ⟨row, hrow, rfl⟩ := List.mem_map.1 hfree
      obtain ⟨hchild, hactive⟩ := mem_activeKeys.1 hrow
      exact ⟨row, mem_childrenOf_of_kept hgrown hdeleted hchild hactive hslot, hactive, rfl⟩
    · obtain ⟨member, hmember, rfl⟩ := List.mem_map.1 hslot
      have hslotNew : memberSlot member ∈ new.map childSlot := by
        rw [hall.slots]
        exact List.mem_map_of_mem (mem_missing.2 ⟨hmember, hfree⟩)
      obtain ⟨key, hkey, hkeySlot⟩ := List.mem_map.1 hslotNew
      exact ⟨key.attachTo id, mem_childrenOf_of_new hgrown hdeleted hall hkey, hnewActive key hkey,
        hkeySlot⟩
  · obtain ⟨hchild, hactive⟩ := mem_activeKeys.1 hrow
    rcases active_of_origin hall (horigin row hchild) hactive with hold | ⟨key, hkey, rfl, -⟩
    · exact horderly.expiry row hold
    · exact (hgrown.provisioned key hkey).expiresAt
  · -- a stale child was stale before
    refine List.eq_nil_iff_forall_not_mem.2 fun row hrow => ?_
    obtain ⟨hchild, hstatus, hremoval, hslot⟩ := mem_staleKeys.1 hrow
    cases horigin row hchild with
    | kept _ hactive _ => exact hstatus hactive
    | left old status hover heq hleft =>
      subst heq
      rcases hleft with rfl | hleft
      · have hstale : old ∈ staleKeys (env.slots kind) (s.childrenOf id) :=
          mem_staleKeys.2 ⟨(mem_surplus.1 hover).1, hstatus, hremoval, hslot⟩
        rw [horderly.fresh] at hstale
        cases hstale
      · exact Bool.false_ne_true (hremoval.symm.trans hleft)
    | created key hkey heq =>
      subst heq
      exact hstatus (hnewActive key hkey)
  · obtain ⟨hchild, hout⟩ := mem_surplus.1 hrow
    cases horigin row hchild with
    | kept _ hactive hslot => exact absurd hslot (hout hactive)
    | left old status hover heq _ =>
      subst heq
      exact ⟨old, hover, rfl⟩
    | created key hkey heq =>
      subst heq
      exact absurd (slot_of_new hall hkey).1 (hout (hnewActive key hkey))

theorem surplus_eq_nil (hgrown : Grown id expiresAt new s s₁)
    (hdeleted : DeletedSome faults (surplus (env.slots kind) (s.childrenOf id)) s₁ true s')
    (hall : CreatedAll id (missing (env.included kind) (s.childrenOf id)) new s₁) :
    surplus (env.slots kind) (s'.childrenOf id) = [] := by
  refine List.eq_nil_iff_forall_not_mem.2 fun row hrow => ?_
  obtain ⟨hchild, hout⟩ := mem_surplus.1 hrow
  cases origin_of_child hgrown hdeleted hchild with
  | kept _ hactive hslot => exact hout hactive hslot
  | left old status hover heq _ =>
    subst heq
    have hgone := hdeleted.gone rfl old hover
    exact nomatch hgone.symm.trans (mem_childrenOf.1 hchild).1
  | created key hkey heq =>
    subst heq
    exact hout (hgrown.provisioned key hkey).status (slot_of_new hall hkey).1

/-! ### How a reconcile ends -/

/-- What a reconcile leaves, with the result that it returns. -/
inductive ReconcileEnd (faults : ReconcileFaults) (wanted : List Slot) (bundle : KeyBundle)
    (kind : KeyBundleKind) (expiresAt : Option ℕ) (s : KeyTables) (r : ReconcileResult) (s' : KeyTables) :
    Prop
  | failed (outcome : r.outcome = .failed) (fails : faults.Fails) (sound : Sound s')
      (bundles : s'.bundles = s.bundles)
      (old : ∀ key ∈ s.keys.rows, s'.keys.find? key.id = some key)
      (undone : r.rollbackFailedKeyIds = [] → s'.childrenOf bundle.id = s.childrenOf bundle.id)
  | unfinished (outcome : r.outcome = .unfinished) (fails : faults.Fails)
      (advanced : Advanced wanted bundle.id expiresAt s s')
      (bundles : s'.bundles = s.bundles ∨ s'.bundles = (s.setKind bundle.id kind).bundles)
  | applied (outcome : r.outcome = .applied) (advanced : Advanced wanted bundle.id expiresAt s s')
      (surplus : surplus wanted (s'.childrenOf bundle.id) = [])
      (bundles : s'.bundles = s.bundles ∧ kind = bundle.kind ∨
        s'.bundles = (s.setKind bundle.id kind).bundles)

theorem ends_applyCreates (hsound : Sound s) (hbundle : (s.bundles.find? bundle.id).isSome) :
    Program.Ends (applyCreates faults bundle plan)
      (fun r s' => Grown bundle.id plan.expiresAt r.1 s s' ∧
        (r.2 = true → CreatedAll bundle.id plan.create r.1 s') ∧ (r.2 = false → faults.Fails))
      (fun _ _ => False) s := by
  unfold applyCreates
  split_ifs with hempty
  · have hnil : plan.create = [] := List.isEmpty_iff.1 hempty
    refine ⟨.rfl' hsound, fun _ => ⟨List.forall_mem_nil _, ?_⟩, nofun⟩
    rw [hnil]
    rfl
  · have howner : faults.owner ≠ none → faults.Fails := fun h => Or.inr (Or.inl h)
    rw [Program.ends_bind, Program.ends_attempt]
    refine Program.ends_call_of (fun _ => ?_) (fun h => ?_) fun h => ?_
    · exact ends_createMembers hsound hbundle
    · exact ⟨.rfl' hsound, nofun, fun _ => howner h⟩
    · exact ⟨.rfl' hsound, nofun, fun _ => howner h⟩

theorem find?_of_grown (hgrown : Grown id expiresAt new s s₁) {key : VpnKey} (hkey : key ∈ s.keys.rows) :
    s₁.keys.find? key.id = some key := by
  rw [hgrown.old _ (s.keys.below key hkey)]
  exact Rows.find?_eq_some_iff.2 ⟨hkey, rfl⟩

theorem childrenOf_of_rollback (hgrown : Grown id expiresAt new s s₁) (houtside : Outside new s₁ s')
    (hgone : ∀ key ∈ new, s'.keys.find? key.id = none) : s'.childrenOf id = s.childrenOf id := by
  have hsorted : ∀ t : KeyTables, (t.childrenOf id).Pairwise fun a b => a.id < b.id := fun t =>
    t.keys.sorted.filter _
  refine Rows.eq_of_mem_iff (hsorted s') (hsorted s) fun row => ?_
  rw [mem_childrenOf, mem_childrenOf]
  refine and_congr_left fun hbundle => ?_
  by_cases hnew : ∃ key ∈ new, row.id = key.id
  · obtain ⟨key, hkey, hid⟩ := hnew
    have hge := (hgrown.found key hkey).1
    constructor
    · intro hfind
      rw [hid, hgone key hkey] at hfind
      cases hfind
    · intro hfind
      have hlt := s.keys.below row (Rows.find?_eq_some_iff.1 hfind).1
      omega
  · have hnot : ∀ key ∈ new, row.id ≠ key.id := fun key hkey hid => hnew ⟨key, hkey, hid⟩
    rw [houtside.keys _ hnot]
    rcases Nat.lt_or_ge row.id s.keys.next with hlt | hge
    · rw [hgrown.old _ hlt]
    · constructor
      · intro hfind
        rcases hgrown.fresh row (mem_rows_iff_find?.2 hfind) hge with hnone | hmem
        · exact nomatch hnone.symm.trans hbundle
        · obtain ⟨key, hkey, hid⟩ := List.mem_map.1 hmem
          exact absurd hid.symm (hnot key hkey)
      · intro hfind
        have hlt := s.keys.below row (Rows.find?_eq_some_iff.1 hfind).1
        omega

theorem Sound.setKind (h : Sound s) (id : ℕ) (kind : KeyBundleKind) : Sound (s.setKind id kind) :=
  h.updateBundle _ fun _ h => h

theorem Advanced.setKind (h : Advanced wanted id expiresAt s s') (kind : KeyBundleKind) :
    Advanced wanted id expiresAt s (s'.setKind id kind) :=
  ⟨⟨h.reached.sound.setKind id kind, h.reached.covered, h.reached.nodup, h.reached.expiry,
    h.reached.fresh⟩, h.surplus⟩

theorem bundles_setKind (h : s'.bundles = s.bundles) (kind : KeyBundleKind) :
    (s'.setKind id kind).bundles = (s.setKind id kind).bundles := by
  unfold KeyTables.setKind KeyTables.updateBundle
  simp only [h]

/-- **Applying a plan**, whatever calls fail. -/
theorem ends_applyReconcile (hsound : Sound s) (hbundle : (s.bundles.find? bundle.id).isSome)
    (horderly : Orderly (env.slots kind) now bundle (s.childrenOf bundle.id) expiresAt)
    (hplan : PlanOf env kind expiresAt (s.childrenOf bundle.id) plan) :
    Program.Ends (applyReconcile faults bundle plan)
      (fun r s' => ReconcileEnd faults (env.slots kind) bundle kind expiresAt s r s')
      (fun _ _ => False) s := by
  unfold applyReconcile
  rw [Program.ends_bind]
  refine (ends_applyCreates hsound hbundle).mono ?_ fun _ _ h => h
  rintro ⟨new, done⟩ s₁ ⟨hgrown, hall, hfails⟩
  rw [hplan.expiresAt] at hgrown
  rw [hplan.create] at hall
  cases done with
  | false =>
    -- the new keys are taken back
    have hnodup : (new.reverse.map VpnKey.id).Nodup := by
      rw [List.map_reverse]
      exact List.nodup_reverse.2 hgrown.nodup
    have hfound : ∀ key ∈ new.reverse, ∃ row, s₁.keys.find? key.id = some row ∧
        row.keyType = key.keyType := by
      intro key hkey
      rcases (hgrown.found key (List.mem_reverse.1 hkey)).2 with h | h
      · exact ⟨key, h, rfl⟩
      · exact ⟨key.attachTo bundle.id, h, rfl⟩
    have htype : ∀ key ∈ new.reverse, key.keyType ≠ .awg := fun key hkey =>
      (hgrown.provisioned key (List.mem_reverse.1 hkey)).keyType
    show Program.Ends (do
      let failed ← rollbackReconcileCreates faults 0 new.reverse
      pure _) _ _ s₁
    rw [Program.ends_bind]
    refine (ends_rollbackReconcileCreates hgrown.sound hnodup hfound htype).mono ?_ fun _ _ h => h
    rintro failed s' ⟨hsound', houtside, hgone⟩
    have houtside' : Outside new s₁ s' :=
      ⟨fun j hj => houtside.keys j fun key hkey => hj key (List.mem_reverse.1 hkey),
        fun j hj => houtside.clients j fun key hkey => hj key (List.mem_reverse.1 hkey),
        houtside.bundles⟩
    refine .failed rfl (hfails rfl) hsound' (houtside.bundles.trans hgrown.bundles)
      (fun key hkey => ?_) fun hfailed => ?_
    · have hne : ∀ other ∈ new, key.id ≠ other.id := by
        intro other hother heq
        have hge := (hgrown.found other hother).1
        have hlt := s.keys.below key hkey
        omega
      rw [houtside'.keys _ hne]
      exact find?_of_grown hgrown hkey
    · exact childrenOf_of_rollback hgrown houtside' fun key hkey =>
        hgone hfailed key (List.mem_reverse.2 hkey)
  | true =>
    have hlisted : Listed plan.delete s₁ := by
      rw [hplan.delete]
      exact listed_surplus hgrown
    rw [if_neg (by simp), Program.ends_bind]
    refine (ends_deleteSurplus hgrown.sound hlisted).mono ?_ fun _ _ h => h
    rintro ⟨deleted, ended⟩ s₂ hdeleted
    rw [hplan.delete] at hdeleted
    have hadvanced := advanced_of_deletes horderly hgrown hdeleted (hall rfl)
    have hbundles : s₂.bundles = s.bundles := hdeleted.outside.bundles.trans hgrown.bundles
    cases ended with
    | false => exact .unfinished rfl (hdeleted.fails rfl) hadvanced (Or.inl hbundles)
    | true =>
      have hnone := surplus_eq_nil hgrown hdeleted (hall rfl)
      have hfail : faults.setKind ≠ none → faults.Fails := fun h =>
        Or.inr (Or.inr (Or.inr (Or.inr (Or.inr h))))
      rw [if_pos rfl, Program.ends_bind, Program.ends_attempt, hplan.kindAfter]
      unfold changeKind
      split_ifs with hkind
      · exact .applied rfl hadvanced hnone (Or.inl ⟨hbundles, hkind⟩)
      · refine Program.ends_call_of (fun _ => ?_) (fun h => ?_) fun h => ?_
        · exact .applied rfl (hadvanced.setKind kind) hnone (Or.inr (bundles_setKind hbundles kind))
        · exact .unfinished rfl (hfail h) hadvanced (Or.inl hbundles)
        · exact .unfinished rfl (hfail h) (hadvanced.setKind kind)
            (Or.inr (bundles_setKind hbundles kind))

/-- **A reconcile**, whatever calls fail: it writes nothing, or a plan for children in order is
applied. -/
theorem ends_reconcileComposition (hsound : Sound s) (hbundle : s.bundles.find? id = some bundle) :
    Program.Ends (reconcileComposition faults env now target false id)
      (fun r s' => planReconcile env now target bundle (s.childrenOf id) = .error r ∧ s' = s ∨
        ∃ expiresAt, Orderly (env.slots (target.getD bundle.kind)) now bundle (s.childrenOf id) expiresAt ∧
          (∀ key ∈ surplus (env.slots (target.getD bundle.kind)) (s.childrenOf id),
            env.degraded key.keyType = false) ∧
          ReconcileEnd faults (env.slots (target.getD bundle.kind)) bundle (target.getD bundle.kind)
            expiresAt s r s')
      (fun _ s' => s' = s ∧ faults.plan ≠ none) s := by
  unfold reconcileComposition
  rw [Program.ends_bind]
  refine Program.ends_call_of (fun _ => ?_) (fun h => ⟨rfl, h⟩) fun h => ⟨rfl, h⟩
  rw [Program.ends_bind]
  refine ends_getBundle hbundle ?_
  rw [Program.ends_bind, Program.ends_get]
  obtain rfl := (Rows.find?_eq_some_iff.1 hbundle).2
  cases hplan : planReconcile env now target bundle (s.childrenOf bundle.id) with
  | error r => exact Or.inl ⟨rfl, rfl⟩
  | ok plan =>
    obtain ⟨expiresAt, horderly⟩ := orderly_of_plan hplan
    rw [planReconcile_of_orderly horderly] at hplan
    have hof := planOf_of_compare hplan
    show Program.Ends (applyReconcile faults bundle plan) _ _ s
    refine (ends_applyReconcile hsound (by rw [hbundle]; rfl) horderly hof).mono ?_ fun _ _ h => h.elim
    exact fun r s' hend => Or.inr ⟨expiresAt, horderly, hof.healthy, hend⟩

theorem ends_reconcileComposition_unwritten {dryRun : Bool}
    (h : dryRun = true ∨ s.bundles.find? id = none) :
    Program.Ends (reconcileComposition faults env now target dryRun id) (fun _ s' => s' = s)
      (fun _ s' => s' = s) s := by
  unfold reconcileComposition
  rw [Program.ends_bind]
  refine Program.ends_call_of (fun _ => ?_) (fun _ => rfl) fun _ => rfl
  rw [Program.ends_bind]
  cases hbundle : s.bundles.find? id with
  | none =>
    rw [getBundle, Program.ends_bind, Program.ends_get, hbundle]
    rfl
  | some bundle =>
    obtain rfl := h.resolve_right (by rw [hbundle]; rintro ⟨⟩)
    refine ends_getBundle hbundle ?_
    rw [Program.ends_bind, Program.ends_get]
    cases planReconcile env now target bundle (s.childrenOf id) with
    | error r => rfl
    | ok plan => rfl

theorem ReconcileEnd.sound {r : ReconcileResult}
    (h : ReconcileEnd faults wanted bundle kind expiresAt s r s') : Sound s' := by
  cases h with
  | failed _ _ hsound => exact hsound
  | unfinished _ _ hadvanced => exact hadvanced.reached.sound
  | applied _ hadvanced => exact hadvanced.reached.sound

theorem sound_reconcileComposition (hsound : Sound s) (dryRun : Bool) :
    Program.Ends (reconcileComposition faults env now target dryRun id) (fun _ s' => Sound s')
      (fun _ s' => Sound s') s := by
  by_cases hskip : dryRun = true ∨ s.bundles.find? id = none
  · refine (ends_reconcileComposition_unwritten hskip).mono ?_ ?_
    · exact fun _ s' h => h ▸ hsound
    · exact fun _ s' h => h ▸ hsound
  · obtain ⟨hdry, hsome⟩ := not_or.1 hskip
    obtain ⟨bundle, hbundle⟩ := Option.ne_none_iff_exists'.1 hsome
    rw [Bool.not_eq_true] at hdry
    subst hdry
    refine (ends_reconcileComposition hsound hbundle).mono ?_ ?_
    · rintro r s' (⟨-, rfl⟩ | ⟨expiresAt, -, -, hend⟩)
      · exact hsound
      · exact hend.sound
    · rintro - s' ⟨rfl, -⟩
      exact hsound

end VpnBot.KeyBundles
