import VpnBot.KeyBundles.CompositionSafety

/-!
# Runs of the services

`KeyOp` lists what the services do to keys and bundles: whole operations, each with the calls of it that
fail.  `sound_of_run` is the invariant of all runs, and `retires_bundles` what `revoke_bundle` and
`delete_bundle` do to a bundle in a state that a run has reached.
-/

namespace VpnBot.KeyBundles

open Py Sys
open Bundles (BundleMember KeyBundleKind)

/-- An operation of the services, with the calls of it that fail. -/
inductive KeyOp
  /-- The row of `create_bundle`. -/
  | openBundle (kind : KeyBundleKind) (token : Text)
  /-- A child of `create_bundle` or `reconcile_composition`. -/
  | issueAndAttach (fault : ChildFaults) (member : BundleMember) (expiresAt : Option ℕ) (bundleId : ℕ)
  /-- One key is revoked, by its owner, an administrator or the expiry job. -/
  | revokeKey (fault : ChildFaults) (id : ℕ)
  | deleteKey (fault : ChildFaults) (id : ℕ)
  | startup (fault : ChildFaults) (id : ℕ)
  | setKind (id : ℕ) (kind : KeyBundleKind)
  | reconcile (faults : ReconcileFaults) (env : Environment) (now : ℕ) (target : Option KeyBundleKind)
      (dryRun : Bool) (id : ℕ)
  | revokeBundle (faults : Faults) (token : Text) (id : ℕ)
  | deleteBundle (faults : Faults) (id : ℕ)

/-- The row of a new bundle. -/
def KeyTables.insertBundle (kind : KeyBundleKind) (token : Text) (s : KeyTables) : KeyTables :=
  { s with bundles := s.bundles.insert ⟨s.bundles.next, kind, .active, token⟩ rfl }

def KeyOp.program : KeyOp → KeyM Unit
  | .openBundle kind token => modify (KeyTables.insertBundle kind token)
  | .issueAndAttach fault member expiresAt bundleId => do
    let id ← provisionChild fault member expiresAt
    attachKey fault id bundleId
  | .revokeKey fault id => do
    let key ← getKey id
    revokeChild fault key
  | .deleteKey fault id => do
    let key ← getKey id
    deleteChild fault key
  | .startup fault id => do
    let key ← getKey id
    if key.keyType = .xray then startupReconcileKey fault key else return ()
  | .setKind id kind => modify (KeyTables.setKind id kind)
  | .reconcile faults env now target dryRun id => do
    let _ ← reconcileComposition faults env now target dryRun id
    return ()
  | .revokeBundle faults token id => KeyBundles.revokeBundle faults token id
  | .deleteBundle faults id => KeyBundles.deleteBundle faults id

/-- One operation. -/
def step (s : KeyTables) (op : KeyOp) : Option KeyTables := some (Program.result op.program s).2

def KeyTables.empty : KeyTables := ⟨.empty, .empty, []⟩

variable {s s' : KeyTables} {id : ℕ} {key : VpnKey} {bundle : KeyBundle} {fault : ChildFaults}

/-! ### What every run keeps -/

theorem sound_empty : Sound .empty :=
  ⟨List.forall_mem_nil _, List.forall_mem_nil _, List.forall_mem_nil _, List.forall_mem_nil _⟩

theorem Sound.insertBundle (h : Sound s) (kind : KeyBundleKind) (token : Text) :
    Sound (s.insertBundle kind token) := by
  refine ⟨h.written, h.childType, h.closed, fun bundle hbundle => ?_⟩
  rcases (Rows.mem_insert rfl).1 hbundle with hold | rfl
  · exact h.bundles bundle hold
  · exact nofun

theorem Sound.left_open {status : VpnKeyStatus} (h : Sound s) (hkey : s.keys.find? key.id = some key)
    (hleft : Left key s s' status) (htype : key.keyType = .xray) (hfailed : status ≠ .failed)
    (hopen : isClosed status = false) : Sound s' := by
  refine h.left hkey hleft ?_ fun _ hclosed => nomatch hopen.symm.trans hclosed
  rw [htype]
  exact hfailed

theorem ends_startupReconcileKey (hsound : Sound s) (hkey : s.keys.find? key.id = some key)
    (htype : key.keyType = .xray) :
    Program.Ends (startupReconcileKey fault key) (fun _ s' => Sound s') (fun _ s' => Sound s') s := by
  have hstart := Left.start hkey
  have hsame := fun {status : VpnKeyStatus} {s' : KeyTables} (hleft : Left key s s' status) =>
    hsound.left_open hkey hleft htype
  -- a call that leaves the status, or sets one that is not closed
  have hwrite : ∀ {c : ChildCall} {effect : KeyTables → KeyTables} {status : VpnKeyStatus},
      Left key s (effect s) status → status ≠ .failed → isClosed status = false →
      Program.Ends (write fault c effect) (fun _ s' => Sound s') (fun _ s' => Sound s') s :=
    fun hleft hfailed hopen => ends_write (fun _ => hsame hleft hfailed hopen) (fun _ => hsound)
      fun _ => hsame hleft hfailed hopen
  rw [startupReconcileKey, Program.ends_bind, Program.ends_get]
  split_ifs with happly hclient hpending hrevoke hremoval
  · have hactive : Left key s (s.markActive key.id) .active := by
      have hmap := hstart.mapStatus
        fun status => if status = .pendingApply ∨ status = .applyFailed then .active else status
      rwa [if_pos happly] at hmap
    exact hwrite hactive nofun rfl
  · exact hwrite (hstart.setStatus .applyFailed) nofun rfl
  · exact hsound
  · -- the revocation is finished
    have hremoved : Left key s (s.removeClient key.id) key.status := hstart.removeClient
    have habsent := KeyTables.not_mem_removeClient s key.id
    have hopen : isClosed key.status = false := by rw [hrevoke]; rfl
    have hstays : Sound (s.removeClient key.id) := hsame hremoved (by rw [hrevoke]; nofun) hopen
    have hrevoked : Sound ((s.removeClient key.id).markRevoked key.id) := by
      refine hsound.left hkey (hremoved.markRevoked hopen) ?_ fun _ _ => habsent
      rw [htype]
      nofun
    rw [Program.ends_bind]
    refine ends_write (fun _ => ?_) (fun _ => hsound) fun _ => hstays
    exact ends_markRevoked hremoved hopen (fun _ => hrevoked) (fun _ => hstays) fun _ => hrevoked
  · -- the deletion is finished
    have hopen := isClosed_of_isRemoval hremoval
    have hfails : ∀ {P : Unit → KeyTables → Prop} {s₁ : KeyTables}, Left key s s₁ key.status →
        Program.Ends
          (do
            write fault .markDeleteFailed (KeyTables.setStatus key.id .deleteFailed)
            throw BundleError.raised) P (fun _ s' => Sound s') s₁ := by
      intro P s₁ h₁
      have hstays : Sound s₁ := hsame h₁ (fun h => by rw [h] at hremoval; cases hremoval) hopen
      have hmarked : Sound (s₁.setStatus key.id .deleteFailed) := hsame (h₁.setStatus _) nofun rfl
      rw [Program.ends_bind]
      exact ends_write (fun _ => hmarked) (fun _ => hstays) fun _ => hmarked
    rw [Program.ends_bind, Program.ends_tryCatch]
    refine ends_write (fun _ => ?_) (fun _ => hfails hstart) fun _ => hfails hstart.removeClient
    have hnot : NotDeleted key s (s.removeClient key.id) :=
      ⟨hstart.removeClient.only, fun h => (List.mem_filter.1 h).1,
        Or.inr ⟨_, hstart.removeClient.row, Or.inl rfl⟩⟩
    refine (ends_hardDelete hnot fun _ => KeyTables.not_mem_removeClient s key.id).mono ?_ ?_
    · exact fun _ s' hdeleted => hsound.deleted hdeleted
    · exact fun _ s' h => hsound.notDeleted hkey h.2
  · exact hsound

theorem ends_getKey_bind {f : VpnKey → KeyM Unit} (hsound : Sound s)
    (hf : ∀ key, s.keys.find? key.id = some key →
      Program.Ends (f key) (fun _ s' => Sound s') (fun _ s' => Sound s') s) :
    Program.Ends (do let key ← getKey id; f key) (fun _ s' => Sound s') (fun _ s' => Sound s') s := by
  rw [Program.ends_bind, getKey, Program.ends_bind, Program.ends_get]
  cases hfind : s.keys.find? id with
  | none => exact hsound
  | some key =>
    have hid := (Rows.find?_eq_some_iff.1 hfind).2
    exact hf key (hid ▸ hfind)

theorem sound_revokeChild (hsound : Sound s) (hkey : s.keys.find? key.id = some key) :
    Program.Ends (revokeChild fault key) (fun _ s' => Sound s') (fun _ s' => Sound s') s := by
  cases htype : key.keyType with
  | awg =>
    rw [revokeChild, htype]
    exact hsound
  | xray | hysteria2 =>
    refine (ends_revokeChild hsound hkey (by rw [htype]; nofun)).mono ?_ ?_
    · rintro - s' ⟨-, ⟨status, hleft, hclosed⟩, habsent⟩
      refine hsound.left hkey hleft (written_of_isClosed hclosed) fun h _ => habsent h
    · rintro - s' ⟨-, status, hnot⟩
      exact hsound.left hkey hnot.left hnot.written hnot.closed

theorem sound_deleteChild (hsound : Sound s) (hkey : s.keys.find? key.id = some key) :
    Program.Ends (deleteChild fault key) (fun _ s' => Sound s') (fun _ s' => Sound s') s := by
  cases htype : key.keyType with
  | awg =>
    rw [deleteChild, htype]
    exact hsound
  | xray | hysteria2 =>
    refine (ends_deleteChild hsound hkey (by rw [htype]; nofun)).mono ?_ ?_
    · exact fun _ s' hdeleted => hsound.deleted hdeleted
    · exact fun _ s' h => hsound.notDeleted hkey h.2

/-- **Every operation keeps the tables sound**, whatever calls fail. -/
theorem ends_program (hsound : Sound s) (op : KeyOp) :
    Program.Ends op.program (fun _ s' => Sound s') (fun _ s' => Sound s') s := by
  cases op with
  | openBundle kind token => exact hsound.insertBundle kind token
  | issueAndAttach fault member expiresAt bundleId =>
    rw [KeyOp.program, Program.ends_bind]
    refine ends_provisionChild.mono ?_ ?_
    · rintro _ s₁ ⟨rfl, hissued⟩
      have hsound₁ := hissued.sound hsound
      have htype : ∀ key ∈ s₁.keys.rows, key.id = s.keys.next → key.keyType ≠ .awg := by
        intro key hkey hid
        rcases hissued.mem_rows.1 hkey with hold | rfl
        · exact absurd hid (s.keys.below key hold).ne
        · obtain ⟨keyType, transport, profile, relay⟩ := member
          cases keyType <;> rintro ⟨⟩
      have hattached : Sound (s₁.attachKeyToBundle s.keys.next bundleId) :=
        hsound₁.attachKeyToBundle htype
      rw [attachKey, Program.ends_bind, Program.ends_get]
      split_ifs
      · exact ends_write (fun _ => hattached) (fun _ => hsound₁) fun _ => hattached
      · exact hsound₁
    · rintro _ s₁ ⟨-, rfl | ⟨status, hissued⟩⟩
      · exact hsound
      · exact hissued.sound hsound
  | revokeKey fault id => exact ends_getKey_bind hsound fun key hkey => sound_revokeChild hsound hkey
  | deleteKey fault id => exact ends_getKey_bind hsound fun key hkey => sound_deleteChild hsound hkey
  | startup fault id =>
    refine ends_getKey_bind hsound fun key hkey => ?_
    split_ifs with htype
    · exact ends_startupReconcileKey hsound hkey htype
    · exact hsound
  | setKind id kind => exact hsound.setKind id kind
  | reconcile faults env now target dryRun id =>
    rw [KeyOp.program, Program.ends_bind]
    exact sound_reconcileComposition hsound dryRun
  | revokeBundle faults token id =>
    by_cases hrevocable : ∃ bundle, s.bundles.find? id = some bundle ∧ bundleRevocable bundle.status = true
    · obtain ⟨bundle, hbundle, hrevocable⟩ := hrevocable
      exact (ends_revokeBundle hsound hbundle hrevocable).mono (fun _ _ h => h.1) fun _ _ h => h.1
    · refine (ends_revokeBundle_refused fun bundle hbundle => ?_).mono ?_ ?_
      · by_contra h
        exact hrevocable ⟨bundle, hbundle, by simpa using h⟩
      · exact fun _ s' h => h ▸ hsound
      · exact fun _ s' h => h ▸ hsound
  | deleteBundle faults id =>
    cases hbundle : s.bundles.find? id with
    | none =>
      exact (ends_deleteBundle_none hbundle).mono (fun _ s' h => h ▸ hsound) fun _ s' h => h ▸ hsound
    | some bundle => exact (ends_deleteBundle hsound hbundle).mono (fun _ _ h => h.1) fun _ _ h => h.1

/-- **The tables are sound in every state that the services reach.** -/
theorem sound_of_run {ops : List KeyOp} (hrun : runFrom step .empty ops = some s) : Sound s := by
  have hstep : ∀ (s : KeyTables) (op : KeyOp) (s' : KeyTables), Sound s → True →
      step s op = some s' → Sound s' := by
    intro s op s' hsound _ hop
    cases hop
    exact Program.Ends.result (R := fun _ s' => Sound s') (ends_program hsound op)
  exact invariant_of_allowed hstep sound_empty (allowed_of_forall (fun _ _ _ => trivial) _) hrun

/-! ### The two operations -/

/-- The state that an operation leaves. -/
def after (p : KeyM Unit) (s : KeyTables) : KeyTables := (Program.result p s).2

/-- The bundle is revoked and no child is live, or it is pending and the revocation of a child has
raised. -/
def RevokedOrPending (faults : Faults) (id : ℕ) (s s' : KeyTables) : Prop :=
  ∃ bundle, s'.bundles.find? id = some bundle ∧
    (bundle.status = .revoked ∧ NoneLive id s' ∨
      bundle.status = .pendingRevoke ∧ SomeRaised faults id s s')

/-- A revocation in which no call fails returns, and then the bundle is revoked. -/
def RevokeFinishes (id : ℕ) (token : Text) (s : KeyTables) : Prop :=
  let run := Program.result (revokeBundle noFaults token id) s
  run.1 = some () ∧ NoneLive id run.2 ∧
    ∃ bundle, run.2.bundles.find? id = some bundle ∧ bundle.status = .revoked

/-- A deletion in which no call fails returns, and then the bundle is gone with its children. -/
def DeleteFinishes (id : ℕ) (s : KeyTables) : Prop :=
  let run := Program.result (deleteBundle noFaults id) s
  run.1 = some () ∧ run.2.bundles.find? id = none ∧ run.2.childrenOf id = []

/-- What the two operations do to a bundle. -/
structure Retires (id : ℕ) (bundle : KeyBundle) (s : KeyTables) : Prop where
  /-- The calls that fail are calls for the children. -/
  revoke : bundleRevocable bundle.status = true → ∀ faults token, faults.ChildrenOnly →
    RevokedOrPending faults id s (after (revokeBundle faults token id) s)
  /-- Any calls fail: once it has begun, the bundle is not active again. -/
  begun : bundleRevocable bundle.status = true → ∀ faults token,
    after (revokeBundle faults token id) s = s ∨
      RevokeEnd faults id s (after (revokeBundle faults token id) s)
  refused : bundleRevocable bundle.status = false → ∀ faults token,
    after (revokeBundle faults token id) s = s
  revoke_again : bundleRevocable bundle.status = true → ∀ faults token token',
    RevokeFinishes id token' (after (revokeBundle faults token id) s)
  delete : ∀ faults, (after (deleteBundle faults id) s).bundles.find? id = none →
    (after (deleteBundle faults id) s).childrenOf id = []
  delete_again : ∀ faults, (after (deleteBundle faults id) s).bundles.find? id ≠ none →
    DeleteFinishes id (after (deleteBundle faults id) s)

theorem not_fails_noFaults : ¬ Fails noFaults := by
  rintro (⟨c, hc⟩ | ⟨i, c, hc⟩)
  · exact hc rfl
  · exact hc rfl

theorem revokeFinishes (hsound : Sound s) (hbundle : s.bundles.find? id = some bundle)
    (hrevocable : bundleRevocable bundle.status = true) (token : Text) : RevokeFinishes id token s := by
  refine Program.Ends.result (R := fun a s' => a = some () ∧ NoneLive id s' ∧
    ∃ bundle, s'.bundles.find? id = some bundle ∧ bundle.status = .revoked) ?_
  refine (ends_revokeBundle hsound hbundle hrevocable).mono ?_ ?_
  · rintro - s' ⟨-, hnone, hrow⟩
    exact ⟨rfl, hnone, hrow⟩
  · rintro - s' ⟨-, hfails, -⟩
    exact absurd hfails not_fails_noFaults

theorem revokeFinishes_of_revoked (hbundle : s.bundles.find? id = some bundle)
    (hrevoked : bundle.status = .revoked) (hnone : NoneLive id s) (token : Text) :
    RevokeFinishes id token s := by
  refine Program.Ends.result (R := fun a s' => a = some () ∧ NoneLive id s' ∧
    ∃ bundle, s'.bundles.find? id = some bundle ∧ bundle.status = .revoked) ?_
  rw [revokeBundle, Program.ends_bind]
  refine ends_bundleRead (fun _ => ?_) fun h => absurd rfl h
  rw [Program.ends_bind]
  refine ends_getBundle hbundle ?_
  rw [if_pos (Or.inl hrevoked)]
  exact ⟨rfl, hnone, bundle, hbundle, hrevoked⟩

theorem deleteFinishes (hsound : Sound s) (hbundle : s.bundles.find? id = some bundle) :
    DeleteFinishes id s := by
  refine Program.Ends.result
    (R := fun a (s' : KeyTables) => a = some () ∧ s'.bundles.find? id = none ∧ s'.childrenOf id = []) ?_
  refine (ends_deleteBundle hsound hbundle).mono ?_ ?_
  · rintro - s' ⟨-, hgone, hempty⟩
    exact ⟨rfl, hgone, hempty⟩
  · rintro - s' ⟨-, hfails, -⟩
    exact absurd hfails not_fails_noFaults

theorem after_revokeBundle (hsound : Sound s) (hbundle : s.bundles.find? id = some bundle)
    (hrevocable : bundleRevocable bundle.status = true) (faults : Faults) (token : Text) :
    Sound (after (revokeBundle faults token id) s) ∧
      ((∃ c, faults.bundle c ≠ none) ∧ after (revokeBundle faults token id) s = s ∨
        RevokeEnd faults id s (after (revokeBundle faults token id) s)) := by
  refine Program.Ends.result (R := fun _ s' => Sound s' ∧
    ((∃ c, faults.bundle c ≠ none) ∧ s' = s ∨ RevokeEnd faults id s s')) ?_
  refine (ends_revokeBundle hsound hbundle hrevocable).mono ?_ ?_
  · rintro - s' ⟨hsound', hnone, bundle', hrow, hstatus⟩
    exact ⟨hsound', Or.inr (.revoked bundle' hrow hstatus hnone)⟩
  · rintro - s' ⟨hsound', -, hend⟩
    exact ⟨hsound', hend⟩

theorem after_deleteBundle (hsound : Sound s) (hbundle : s.bundles.find? id = some bundle)
    (faults : Faults) : Sound (after (deleteBundle faults id) s) ∧
      DeleteFailed id (after (deleteBundle faults id) s) := by
  refine Program.Ends.result (R := fun _ s' => Sound s' ∧ DeleteFailed id s') ?_
  refine (ends_deleteBundle hsound hbundle).mono ?_ ?_
  · rintro - s' ⟨hsound', -, hempty⟩
    exact ⟨hsound', Or.inr hempty⟩
  · rintro - s' ⟨hsound', -, hend⟩
    exact ⟨hsound', hend⟩

/-- **Revoking and deleting a bundle**: a bundle that the services have made is revoked only with all its
children, and otherwise pending with one whose revocation has raised; its row goes after its children
only; and an operation that has failed is finished by the next one that does not. -/
theorem retires_bundles {ops : List KeyOp} (hrun : runFrom step .empty ops = some s)
    (hbundle : s.bundles.find? id = some bundle) : Retires id bundle s := by
  have hsound := sound_of_run hrun
  refine ⟨fun hrevocable faults token hchildren => ?_, fun hrevocable faults token => ?_,
    fun hrefused faults token => ?_, fun hrevocable faults token token' => ?_, fun faults hgone => ?_,
    fun faults hstays => ?_⟩
  · have hno : ¬ ∃ c, faults.bundle c ≠ none := by
      rintro ⟨c, hc⟩
      exact hc (hchildren c)
    obtain ⟨-, ⟨hc, -⟩ | hend⟩ := after_revokeBundle hsound hbundle hrevocable faults token
    · exact absurd hc hno
    · cases hend with
      | pending bundle' hrow hstatus hfails =>
        exact ⟨bundle', hrow, Or.inr ⟨hstatus, hfails.resolve_left hno⟩⟩
      | revoked bundle' hrow hstatus hnone => exact ⟨bundle', hrow, Or.inl ⟨hstatus, hnone⟩⟩
  · obtain ⟨-, ⟨-, hsame⟩ | hend⟩ := after_revokeBundle hsound hbundle hrevocable faults token
    · exact Or.inl hsame
    · exact Or.inr hend
  · refine Program.Ends.result (R := fun _ s' => s' = s) (ends_revokeBundle_refused ?_)
    intro bundle' hbundle'
    obtain rfl := Option.some.inj (hbundle.symm.trans hbundle')
    exact hrefused
  · obtain ⟨hsound', ⟨-, hsame⟩ | hend⟩ := after_revokeBundle hsound hbundle hrevocable faults token
    · rw [hsame]
      exact revokeFinishes hsound hbundle hrevocable token'
    · cases hend with
      | pending bundle' hrow hstatus hfails =>
        exact revokeFinishes hsound' hrow (by rw [hstatus]; rfl) token'
      | revoked bundle' hrow hstatus hnone => exact revokeFinishes_of_revoked hrow hstatus hnone token'
  · obtain ⟨-, hend⟩ := after_deleteBundle hsound hbundle faults
    exact hend.resolve_left (by rw [hgone]; nofun)
  · obtain ⟨hsound', -⟩ := after_deleteBundle hsound hbundle faults
    obtain ⟨bundle', hrow⟩ := Option.ne_none_iff_exists'.1 hstays
    exact deleteFinishes hsound' hrow

/-- The VLESS (TCP) member and the Hysteria2 member of a bundle. -/
def vlessMember : BundleMember := ⟨.xray, .tcp, .base, none⟩

def hysteriaMember : BundleMember := ⟨.hysteria2, .tcp, .base, none⟩

def basicBundle : List KeyOp :=
  [.openBundle .basic ['t'], .issueAndAttach (fun _ => none) vlessMember none 1,
    .issueAndAttach (fun _ => none) hysteriaMember none 1]

theorem retires_bundles_basicBundle :
    ∃ s, runFrom step .empty basicBundle = some s ∧ Retires 1 ⟨1, .basic, .active, ['t']⟩ s := by
  have hrun : runFrom step .empty basicBundle = some _ := rfl
  exact ⟨_, hrun, retires_bundles hrun rfl⟩

/-- The Xray backend is degraded: every operation on the first child is refused. -/
def degraded : Faults :=
  ⟨fun _ => none, fun i c => if i = 0 ∧ c = .checks then some .before else none⟩

/-- A revocation leaves no live child and the bundle pending: its Xray key has been revoked on its own,
and then its service refuses even that key. -/
theorem not_live_of_pending : ¬ ∀ (ops : List KeyOp) (s : KeyTables) (id : ℕ) (bundle : KeyBundle)
    (faults : Faults) (token : Text), runFrom step .empty ops = some s →
    s.bundles.find? id = some bundle → bundleRevocable bundle.status = true → faults.ChildrenOnly →
    ∃ bundle, (after (revokeBundle faults token id) s).bundles.find? id = some bundle ∧
      (bundle.status = .revoked ∧ NoneLive id (after (revokeBundle faults token id) s) ∨
        bundle.status = .pendingRevoke ∧ ¬ NoneLive id (after (revokeBundle faults token id) s)) := by
  intro h
  obtain ⟨bundle, hrow, hend⟩ := h (basicBundle ++ [.revokeKey (fun _ => none) 1]) _ 1 _ degraded ['u']
    rfl rfl rfl fun _ => rfl
  rcases hend with ⟨hstatus, -⟩ | ⟨-, hlive⟩
  · obtain rfl := Option.some.inj (Eq.trans rfl hrow)
    cases hstatus
  · exact hlive (by unfold NoneLive; decide)

end VpnBot.KeyBundles
