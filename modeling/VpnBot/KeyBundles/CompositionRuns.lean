import VpnBot.KeyBundles.RetireRuns

/-!
# Reconciles in runs of the services

What a reconcile does to a bundle that a run of the services has reached (`reconciles_composition`): with
all children in shape when it is applied, with the children as they were when it has failed, and in between
with every slot of the target occupied before a child goes.
-/

namespace VpnBot.KeyBundles

open Py Sys
open Bundles (BundleMember KeyBundleKind)

variable {env : Environment} {now now' : ℕ} {target : Option KeyBundleKind} {kind : KeyBundleKind}
  {bundle bundle' : KeyBundle} {wanted : List Slot} {expiresAt : Option ℕ} {s s' : KeyTables} {id : ℕ}
  {faults : ReconcileFaults} {r : ReconcileResult}

/-- No call of a reconcile fails. -/
def noReconcileFaults : ReconcileFaults :=
  ⟨none, none, fun _ _ => none, fun _ _ => none, fun _ _ => none, none⟩

theorem not_fails_noReconcileFaults : ¬ noReconcileFaults.Fails := by
  rintro (h | h | ⟨_, _, h⟩ | ⟨_, _, h⟩ | ⟨_, _, h⟩ | h) <;> exact h rfl

/-! ### Running it again -/

/-- No child has passed its expiry. -/
def Unexpired (id now : ℕ) (s : KeyTables) : Prop :=
  ∀ key ∈ s.childrenOf id, hasExpired key.expiresAt now = false

theorem orderly_of_reached (h : Reached (env.slots kind) id expiresAt s) (hslots : env.slots kind ≠ [])
    (hactive : bundle.status = .active) (hunexpired : Unexpired id now s) :
    Orderly (env.slots kind) now bundle (s.childrenOf id) expiresAt := by
  refine h.orderly hslots hactive ?_
  obtain ⟨slot, hslot⟩ := List.exists_mem_of_ne_nil _ hslots
  obtain ⟨row, hrow, hstatus, -⟩ := h.covered slot hslot
  rw [← h.expiry row (mem_activeKeys.2 ⟨hrow, hstatus⟩)]
  exact hunexpired row hrow

theorem planReconcile_of_inShape (h : Reached (env.slots kind) id expiresAt s)
    (hslots : env.slots kind ≠ []) (hnone : surplus (env.slots kind) (s.childrenOf id) = [])
    (hactive : bundle.status = .active) (hunexpired : Unexpired id now s)
    (htarget : target.getD bundle.kind = kind) (hkind : bundle.kind = kind) :
    planReconcile env now target bundle (s.childrenOf id) = .error (.unwritten bundle .noop none) := by
  subst htarget
  rw [planReconcile_of_orderly (orderly_of_reached h hslots hactive hunexpired)]
  unfold compareWithTarget
  simp only
  rw [h.missing_eq_nil, show surplus ((env.included (target.getD bundle.kind)).map memberSlot)
    (s.childrenOf id) = [] from hnone, if_pos (by simpa using hkind.symm)]
  rfl

/-- The result of a reconcile, and the state that it leaves. -/
def reconciled (faults : ReconcileFaults) (env : Environment) (now : ℕ) (target : Option KeyBundleKind)
    (id : ℕ) (s : KeyTables) : Option ReconcileResult × KeyTables :=
  Program.result (reconcileComposition faults env now target false id) s

theorem reconciled_of_plan (hbundle : s.bundles.find? id = some bundle) (hcall : faults.plan = none)
    (hplan : planReconcile env now target bundle (s.childrenOf id) = .error r) :
    reconciled faults env now target id s = (some r, s) := by
  refine Program.Ends.result (R := fun a s' => (a, s') = (some r, s)) ?_
  unfold reconcileComposition
  rw [hcall, Program.ends_bind, Program.ends_call, Program.ends_bind]
  refine ends_getBundle hbundle ?_
  rw [Program.ends_bind, Program.ends_get, hplan]
  rfl

/-! ### The row of the bundle -/

/-- The row of a bundle as a reconcile leaves it. -/
structure SameBundle (target : Option KeyBundleKind) (bundle bundle' : KeyBundle) : Prop where
  status : bundle'.status = bundle.status
  token : bundle'.token = bundle.token
  kind : bundle'.kind = bundle.kind ∨ bundle'.kind = target.getD bundle.kind

theorem SameBundle.rfl' : SameBundle target bundle bundle := ⟨rfl, rfl, Or.inl rfl⟩

theorem SameBundle.target_eq (h : SameBundle target bundle bundle') :
    target.getD bundle'.kind = target.getD bundle.kind := by
  cases target with
  | none => exact h.kind.elim id id
  | some kind => rfl

theorem find?_setKind (hbundle : s.bundles.find? id = some bundle) (kind : KeyBundleKind) :
    (s.setKind id kind).bundles.find? id = some { bundle with kind := kind } := by
  unfold KeyTables.setKind
  rw [find?_updateBundle, hbundle]
  rfl

theorem exists_bundle (hbundle : s.bundles.find? id = some bundle)
    (h : s'.bundles = s.bundles ∨ s'.bundles = (s.setKind id (target.getD bundle.kind)).bundles) :
    ∃ bundle', s'.bundles.find? id = some bundle' ∧ SameBundle target bundle bundle' := by
  rcases h with h | h
  · rw [h]
    exact ⟨bundle, hbundle, .rfl'⟩
  · rw [h, find?_setKind hbundle]
    exact ⟨_, rfl, rfl, rfl, Or.inr rfl⟩

/-! ### What a reconcile does -/

/-- The target has been reached: the children are in shape and the bundle has the kind. -/
structure AtTarget (env : Environment) (kind : KeyBundleKind) (id : ℕ) (s : KeyTables) : Prop where
  inShape : InShape (env.slots kind) id s
  kind : ∃ bundle, s.bundles.find? id = some bundle ∧ bundle.kind = kind

/-- What a reconcile of a bundle does, for one pattern of failing calls. -/
structure Reconciles (env : Environment) (now : ℕ) (target : Option KeyBundleKind) (id : ℕ)
    (bundle : KeyBundle) (faults : ReconcileFaults) (s : KeyTables) : Prop where
  applied : ∀ r s', reconciled faults env now target id s = (some r, s') → r.outcome = .applied →
    AtTarget env (target.getD bundle.kind) id s' ∧
      ∀ faults' now', faults'.plan = none → Unexpired id now' s' →
        ∃ r', reconciled faults' env now' target id s' = (some r', s') ∧ r'.outcome = .noop
  failed : ∀ r s', reconciled faults env now target id s = (some r, s') → r.outcome = .failed →
    r.rollbackFailedKeyIds = [] → s'.childrenOf id = s.childrenOf id
  /-- A child that was there is touched only when every slot has its child. -/
  creates_first : ∀ a s', reconciled faults env now target id s = (a, s') →
    (∃ key ∈ s.childrenOf id, s'.keys.find? key.id ≠ some key) →
    ∀ slot ∈ env.slots (target.getD bundle.kind),
      ∃ key ∈ s'.childrenOf id, key.status = .active ∧ childSlot key = slot
  unfinished : ∀ r s', reconciled faults env now target id s = (some r, s') → r.outcome = .unfinished →
    ∀ now', Unexpired id now' s' →
      ∃ r' s'', reconciled noReconcileFaults env now' target id s' = (some r', s'') ∧
        (r'.outcome = .applied ∨ r'.outcome = .noop) ∧ AtTarget env (target.getD bundle.kind) id s''
  token : ∀ a s', reconciled faults env now target id s = (a, s') →
    ∃ bundle', s'.bundles.find? id = some bundle' ∧ bundle'.token = bundle.token
  dry_run : (Program.result (reconcileComposition faults env now target true id) s).2 = s

/-- How a reconcile of a bundle ends: nothing is written, or a plan for children in order is applied. -/
inductive Reconciled (env : Environment) (now : ℕ) (target : Option KeyBundleKind) (bundle : KeyBundle)
    (faults : ReconcileFaults) (s : KeyTables) (a : Option ReconcileResult) (s' : KeyTables) : Prop
  | unwritten (same : s' = s)
      (plan : ∀ r, a = some r → planReconcile env now target bundle (s.childrenOf bundle.id) = .error r)
      (raised : a = none → faults.plan ≠ none)
  | written (r : ReconcileResult) (expiresAt : Option ℕ) (eq : a = some r)
      (orderly : Orderly (env.slots (target.getD bundle.kind)) now bundle (s.childrenOf bundle.id)
        expiresAt)
      (healthy : ∀ key ∈ surplus (env.slots (target.getD bundle.kind)) (s.childrenOf bundle.id),
        env.degraded key.keyType = false)
      (ends : ReconcileEnd faults (env.slots (target.getD bundle.kind)) bundle (target.getD bundle.kind)
        expiresAt s r s')

theorem reconciled_ends (hsound : Sound s) (hbundle : s.bundles.find? bundle.id = some bundle)
    {a : Option ReconcileResult} (hrun : reconciled faults env now target bundle.id s = (a, s')) :
    Reconciled env now target bundle faults s a s' := by
  have hends : Program.Ends (reconcileComposition faults env now target false bundle.id)
      (fun r s' => Reconciled env now target bundle faults s (some r) s')
      (fun _ s' => Reconciled env now target bundle faults s none s') s := by
    refine (ends_reconcileComposition hsound hbundle).mono ?_ ?_
    · rintro r s' (⟨hplan, hsame⟩ | ⟨expiresAt, horderly, hhealthy, hend⟩)
      · refine .unwritten hsame (fun r' hr => ?_) (by rintro ⟨⟩)
        obtain rfl := Option.some.inj hr
        exact hplan
      · exact .written r expiresAt rfl horderly hhealthy hend
    · rintro - s' ⟨hsame, hcall⟩
      exact .unwritten hsame (by rintro _ ⟨⟩) fun _ => hcall
  have hresult := Program.Ends.result (R := fun a s' => Reconciled env now target bundle faults s a s')
    hends
  rw [show Program.result (reconcileComposition faults env now target false bundle.id) s = (a, s')
    from hrun] at hresult
  exact hresult

theorem healthy_of_advanced (h : Advanced wanted id expiresAt s s')
    (hhealthy : ∀ key ∈ surplus wanted (s.childrenOf id), env.degraded key.keyType = false) :
    ∀ key ∈ surplus wanted (s'.childrenOf id), env.degraded key.keyType = false := by
  intro key hkey
  obtain ⟨old, hold, htype⟩ := h.surplus key hkey
  rw [← htype]
  exact hhealthy old hold

theorem exists_plan_of_reached
    (hreached : Reached (env.slots (target.getD bundle.kind)) id expiresAt s)
    (horderly : Orderly (env.slots (target.getD bundle.kind)) now bundle (s.childrenOf id) expiresAt)
    (hhealthy : ∀ key ∈ surplus (env.slots (target.getD bundle.kind)) (s.childrenOf id),
      env.degraded key.keyType = false)
    (hleft : ¬ (surplus (env.slots (target.getD bundle.kind)) (s.childrenOf id) = [] ∧
      bundle.kind = target.getD bundle.kind)) :
    ∃ plan, planReconcile env now target bundle (s.childrenOf id) = .ok plan := by
  rw [planReconcile_of_orderly horderly]
  unfold compareWithTarget
  simp only
  rw [hreached.missing_eq_nil, if_neg, if_neg]
  · exact ⟨_, rfl⟩
  · intro hdegraded
    obtain ⟨keyType, htype, hbad⟩ := List.any_eq_true.1 hdegraded
    obtain ⟨key, hkey, rfl⟩ := List.mem_map.1 htype
    exact Bool.false_ne_true ((hhealthy key hkey).symm.trans hbad)
  · intro hnoop
    rw [List.isEmpty_nil, Bool.true_and, Bool.and_eq_true, decide_eq_true_eq, List.isEmpty_iff] at hnoop
    exact hleft ⟨hnoop.1, hnoop.2.symm⟩

theorem exists_reconciled_of_reached (hbundle : s.bundles.find? bundle.id = some bundle)
    (hreached : Reached (env.slots (target.getD bundle.kind)) bundle.id expiresAt s)
    (hslots : env.slots (target.getD bundle.kind) ≠ []) (hactive : bundle.status = .active)
    (hhealthy : ∀ key ∈ surplus (env.slots (target.getD bundle.kind)) (s.childrenOf bundle.id),
      env.degraded key.keyType = false) (hunexpired : Unexpired bundle.id now s) :
    ∃ r s', reconciled noReconcileFaults env now target bundle.id s = (some r, s') ∧
      (r.outcome = .applied ∨ r.outcome = .noop) ∧ AtTarget env (target.getD bundle.kind) bundle.id s' := by
  have horderly : Orderly (env.slots (target.getD bundle.kind)) now bundle (s.childrenOf bundle.id)
      expiresAt := orderly_of_reached hreached hslots hactive hunexpired
  by_cases hshape : surplus (env.slots (target.getD bundle.kind)) (s.childrenOf bundle.id) = [] ∧
      bundle.kind = target.getD bundle.kind
  · -- nothing is left to do
    have hplan := planReconcile_of_inShape hreached hslots hshape.1 hactive hunexpired rfl hshape.2
    exact ⟨_, s, reconciled_of_plan hbundle rfl hplan, Or.inr rfl, hreached.inShape hshape.1,
      bundle, hbundle, hshape.2⟩
  · cases hrun : reconciled noReconcileFaults env now target bundle.id s with
    | mk a s' =>
    cases reconciled_ends hreached.sound hbundle hrun with
    | unwritten _ hplan hraised =>
      obtain ⟨plan, hok⟩ := exists_plan_of_reached hreached horderly hhealthy hshape
      cases a with
      | none => exact absurd rfl (hraised rfl)
      | some r => exact nomatch hok.symm.trans (hplan r rfl)
    | written r e heq _ _ hend =>
      subst heq
      cases hend with
      | failed _ hfails => exact absurd hfails not_fails_noReconcileFaults
      | unfinished _ hfails => exact absurd hfails not_fails_noReconcileFaults
      | applied houtcome hadvanced hnone hbundles =>
        refine ⟨r, s', rfl, Or.inl houtcome, hadvanced.reached.inShape hnone, ?_⟩
        rcases hbundles with ⟨h, hkind⟩ | h
        · rw [h]
          exact ⟨bundle, hbundle, hkind.symm⟩
        · rw [h, find?_setKind hbundle]
          exact ⟨_, rfl, rfl⟩

theorem covered_of_touched
    (hend : ReconcileEnd faults wanted bundle kind expiresAt s r s')
    (htouched : ∃ key ∈ s.childrenOf bundle.id, s'.keys.find? key.id ≠ some key) :
    ∀ slot ∈ wanted, ∃ key ∈ s'.childrenOf bundle.id, key.status = .active ∧ childSlot key = slot := by
  cases hend with
  | failed _ _ _ _ hold =>
    obtain ⟨key, hkey, hchanged⟩ := htouched
    exact absurd (hold key (List.mem_of_mem_filter hkey)) hchanged
  | unfinished _ _ hadvanced => exact hadvanced.reached.covered
  | applied _ hadvanced => exact hadvanced.reached.covered

theorem ReconcileEnd.bundles
    (h : ReconcileEnd faults wanted bundle kind expiresAt s r s') :
    s'.bundles = s.bundles ∨ s'.bundles = (s.setKind bundle.id kind).bundles := by
  cases h with
  | failed _ _ _ hbundles => exact Or.inl hbundles
  | unfinished _ _ _ hbundles => exact hbundles
  | applied _ _ _ hbundles => exact hbundles.imp_left And.left

/-- **Reconciling the composition of a bundle**, in any state that the services reach and whatever calls
fail. -/
theorem reconciles_composition {ops : List KeyOp} (hrun : runFrom step .empty ops = some s)
    (hbundle : s.bundles.find? id = some bundle) (env : Environment) (now : ℕ)
    (target : Option KeyBundleKind) (faults : ReconcileFaults) :
    Reconciles env now target id bundle faults s := by
  have hsound := sound_of_run hrun
  obtain rfl := (Rows.find?_eq_some_iff.1 hbundle).2
  refine ⟨fun r s' hrec houtcome => ?_, fun r s' hrec houtcome hfailed => ?_,
    fun a s' hrec htouched => ?_, fun r s' hrec houtcome now' hunexpired => ?_, fun a s' hrec => ?_, ?_⟩
  · cases reconciled_ends hsound hbundle hrec with
    | unwritten _ hplan _ =>
      rcases unwritten_of_plan (hplan r rfl) with h | h <;> exact nomatch houtcome.symm.trans h
    | written r' e heq horderly hhealthy hend =>
      obtain rfl := Option.some.inj heq
      cases hend with
      | failed h => exact nomatch houtcome.symm.trans h
      | unfinished h => exact nomatch houtcome.symm.trans h
      | applied _ hadvanced hnone hbundles =>
        obtain ⟨bundle', hrow, hsame, hkind⟩ : ∃ bundle', s'.bundles.find? bundle.id = some bundle' ∧
            SameBundle target bundle bundle' ∧ bundle'.kind = target.getD bundle.kind := by
          rcases hbundles with ⟨h, hkind⟩ | h
          · rw [h]
            exact ⟨bundle, hbundle, .rfl', hkind.symm⟩
          · rw [h, find?_setKind hbundle]
            exact ⟨_, rfl, ⟨rfl, rfl, Or.inr rfl⟩, rfl⟩
        refine ⟨⟨hadvanced.reached.inShape hnone, bundle', hrow, hkind⟩,
          fun faults' now' hcall hunexpired => ?_⟩
        -- the next call finds every child in shape and plans nothing
        have hplan := planReconcile_of_inShape hadvanced.reached horderly.members hnone
          (hsame.status.trans horderly.active) hunexpired hsame.target_eq hkind
        exact ⟨_, reconciled_of_plan hrow hcall hplan, rfl⟩
  · cases reconciled_ends hsound hbundle hrec with
    | unwritten hsame _ _ => rw [hsame]
    | written r' e heq _ _ hend =>
      obtain rfl := Option.some.inj heq
      cases hend with
      | failed _ _ _ _ _ hundone => exact hundone hfailed
      | unfinished h => exact nomatch houtcome.symm.trans h
      | applied h => exact nomatch houtcome.symm.trans h
  · cases reconciled_ends hsound hbundle hrec with
    | unwritten hsame _ _ =>
      obtain ⟨key, hkey, hchanged⟩ := htouched
      rw [hsame] at hchanged
      exact absurd (mem_childrenOf.1 hkey).1 hchanged
    | written r e _ _ _ hend => exact covered_of_touched hend htouched
  · cases reconciled_ends hsound hbundle hrec with
    | unwritten _ hplan _ =>
      rcases unwritten_of_plan (hplan r rfl) with h | h <;> exact nomatch houtcome.symm.trans h
    | written r' e heq horderly hhealthy hend =>
      obtain rfl := Option.some.inj heq
      cases hend with
      | failed h => exact nomatch houtcome.symm.trans h
      | applied h => exact nomatch houtcome.symm.trans h
      | unfinished _ _ hadvanced hbundles =>
        obtain ⟨bundle', hrow, hsame⟩ := exists_bundle hbundle hbundles
        obtain hid : bundle'.id = bundle.id := (Rows.find?_eq_some_iff.1 hrow).2
        rw [← hsame.target_eq]
        rw [← hsame.target_eq] at hadvanced hhealthy horderly
        rw [← hid] at hadvanced hhealthy hunexpired hrow ⊢
        -- the children that came through stay, so the next call has the rest to do
        exact exists_reconciled_of_reached hrow hadvanced.reached horderly.members
          (hsame.status.trans horderly.active) (healthy_of_advanced hadvanced hhealthy) hunexpired
  · cases reconciled_ends hsound hbundle hrec with
    | unwritten hsame _ _ =>
      rw [hsame]
      exact ⟨bundle, hbundle, rfl⟩
    | written r e _ _ _ hend =>
      obtain ⟨bundle', hrow, hsame⟩ := exists_bundle hbundle hend.bundles
      exact ⟨bundle', hrow, hsame.token⟩
  · exact Program.Ends.result (R := fun _ s' => s' = s)
      (ends_reconcileComposition_unwritten (Or.inl rfl))

/-- No relays, every backend switched on and none degraded. -/
def plainEnvironment : Environment := ⟨[], .nil, fun _ => true, fun _ => false⟩

/-- The Hysteria2 backend is switched off. -/
def xrayOnly : Environment := ⟨[], .nil, fun member => member.keyType = .xray, fun _ => false⟩

theorem reconciles_composition_basicBundle :
    ∃ s, runFrom step .empty basicBundle = some s ∧
      Reconciles plainEnvironment 5 (some .extended) 1 ⟨1, .basic, .active, ['t']⟩ noReconcileFaults s := by
  have hrun : runFrom step .empty basicBundle = some _ := rfl
  exact ⟨_, hrun, reconciles_composition hrun rfl _ _ _ _⟩

/-- A basic bundle with its first child only, which expires at 10. -/
def expiringBundle : List KeyOp :=
  [.openBundle .basic ['t'], .issueAndAttach (fun _ => none) vlessMember (some 10) 1]

/-- The row of a child goes, and the call raises. -/
def raisesAfterDelete : ReconcileFaults :=
  { noReconcileFaults with delete := fun _ c => if c = .hardDelete then some .after else none }

/-- A bundle that was brought to its target at 5 is skipped when its children have expired at 10; and after
a delete that took effect and raised, nothing is left for the next run to apply. -/
theorem skipped_after_expiry_and_noop_after_partial :
    (¬ ∀ (ops : List KeyOp) (s s' : KeyTables) (id : ℕ) (bundle : KeyBundle) (env : Environment)
        (now now' : ℕ) (target : Option KeyBundleKind) (faults : ReconcileFaults) (r : ReconcileResult),
      runFrom step .empty ops = some s → s.bundles.find? id = some bundle → now ≤ now' →
      reconciled faults env now target id s = (some r, s') → r.outcome = .applied →
      ∃ r', reconciled noReconcileFaults env now' target id s' = (some r', s') ∧ r'.outcome = .noop) ∧
    ¬ ∀ (ops : List KeyOp) (s s' : KeyTables) (id : ℕ) (bundle : KeyBundle) (env : Environment)
        (now : ℕ) (target : Option KeyBundleKind) (faults : ReconcileFaults) (r : ReconcileResult),
      runFrom step .empty ops = some s → s.bundles.find? id = some bundle →
      reconciled faults env now target id s = (some r, s') → r.outcome = .unfinished →
      ∃ r' s'', reconciled noReconcileFaults env now target id s' = (some r', s'') ∧
        r'.outcome = .applied := by
  constructor
  · intro h
    obtain ⟨r', hrun, hnoop⟩ := h expiringBundle _ _ 1 _ plainEnvironment 5 10 none noReconcileFaults _
      rfl rfl (by decide) rfl rfl
    obtain rfl := Option.some.inj (Prod.mk.inj hrun).1
    cases hnoop
  · intro h
    obtain ⟨r', s'', hrun, happlied⟩ := h basicBundle _ _ 1 _ xrayOnly 5 none raisesAfterDelete _
      rfl rfl rfl rfl
    obtain rfl := Option.some.inj (Prod.mk.inj hrun).1
    cases happlied

end VpnBot.KeyBundles
