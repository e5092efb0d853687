import VpnBot.KeyBundles.Retire

/-!
# What an operation on one child leaves

An operation on a key touches the row and the client of that key only (`Only`), and of its row the status
only (`Left`).  `Sound` collects what the services keep up: the statuses that they write, the types of the
children, and that no client is left of an Xray key whose row is closed.
-/

namespace VpnBot.KeyBundles

open Py Sys

/-! ### The frame -/

namespace KeyTables

variable {s : KeyTables} {id j : ℕ} {f : VpnKeyStatus → VpnKeyStatus}

theorem find?_mapStatus : (s.mapStatus id f).keys.find? id =
    (s.keys.find? id).map (VpnKey.mapStatus f) := by
  unfold mapStatus
  exact Rows.find?_update_self (f := VpnKey.mapStatus f) fun _ => rfl

theorem find?_mapStatus_of_ne (h : j ≠ id) : (s.mapStatus id f).keys.find? j = s.keys.find? j := by
  unfold mapStatus
  exact Rows.find?_update_of_ne (f := VpnKey.mapStatus f) (fun _ => rfl) h

theorem not_mem_removeClient (s : KeyTables) (id : ℕ) : id ∉ (s.removeClient id).clients := by
  simp [removeClient]

end KeyTables

/-- Nothing but the row and the client of one key has changed. -/
structure Only (id : ℕ) (s s' : KeyTables) : Prop where
  keys : ∀ j, j ≠ id → s'.keys.find? j = s.keys.find? j
  clients : ∀ j, j ≠ id → (j ∈ s'.clients ↔ j ∈ s.clients)
  bundles : s'.bundles = s.bundles

/-- The row of the key has got a status, and no other row has changed. -/
structure Left (key : VpnKey) (s s' : KeyTables) (status : VpnKeyStatus) : Prop where
  only : Only key.id s s'
  row : s'.keys.find? key.id = some { key with status := status }

namespace Only

variable {id : ℕ} {s s₁ s' : KeyTables}

theorem rfl' : Only id s s := ⟨fun _ _ => rfl, fun _ _ => Iff.rfl, rfl⟩

theorem trans (h : Only id s s₁) (h' : Only id s₁ s') : Only id s s' :=
  ⟨fun j hj => (h'.keys j hj).trans (h.keys j hj), fun j hj => (h'.clients j hj).trans (h.clients j hj),
    h'.bundles.trans h.bundles⟩

theorem mapStatus (f : VpnKeyStatus → VpnKeyStatus) : Only id s (s.mapStatus id f) :=
  ⟨fun _ hj => KeyTables.find?_mapStatus_of_ne hj, fun _ _ => Iff.rfl, rfl⟩

theorem removeClient : Only id s (s.removeClient id) :=
  ⟨fun _ _ => rfl, fun j hj => by simp [KeyTables.removeClient, hj], rfl⟩

theorem hardDelete : Only id s (s.hardDelete id) :=
  ⟨fun _ hj => Rows.find?_delete_of_ne hj, fun _ _ => Iff.rfl, rfl⟩

end Only

namespace Left

variable {key : VpnKey} {s s' : KeyTables} {status : VpnKeyStatus}

theorem start (h : s.keys.find? key.id = some key) : Left key s s key.status := ⟨Only.rfl', h⟩

theorem mapStatus (h : Left key s s' status) (f : VpnKeyStatus → VpnKeyStatus) :
    Left key s (s'.mapStatus key.id f) (f status) := by
  refine ⟨h.only.trans (Only.mapStatus f), ?_⟩
  rw [KeyTables.find?_mapStatus, h.row]
  rfl

theorem setStatus (h : Left key s s' status) (status' : VpnKeyStatus) :
    Left key s (s'.setStatus key.id status') status' := h.mapStatus fun _ => status'

theorem markRevoked (h : Left key s s' status) (hopen : isClosed status = false) :
    Left key s (s'.markRevoked key.id) .revoked := by
  have hmap := h.mapStatus fun status => if isClosed status then status else .revoked
  rwa [hopen, if_neg Bool.false_ne_true] at hmap

theorem removeClient (h : Left key s s' status) : Left key s (s'.removeClient key.id) status :=
  ⟨h.only.trans Only.removeClient, h.row⟩

end Left

/-! ### What the services keep up -/

/-- The statuses that the service of a key type writes. -/
def Written : VpnKeyType → VpnKeyStatus → Prop
  | .xray, status => status ≠ .failed
  | .hysteria2, status => hysteria2Revocable status = true ∨ isClosed status = true
  | .awg, _ => True

theorem written_of_isClosed {keyType : VpnKeyType} {status : VpnKeyStatus}
    (h : isClosed status = true) : Written keyType status := by
  cases keyType with
  | xray =>
    rintro rfl
    cases h
  | hysteria2 => exact Or.inr h
  | awg => trivial

/-- What the services keep up in the tables. -/
structure Sound (s : KeyTables) : Prop where
  written : ∀ key ∈ s.keys.rows, Written key.keyType key.status
  childType : ∀ key ∈ s.keys.rows, key.bundleId ≠ none → key.keyType ≠ .awg
  closed : ∀ key ∈ s.keys.rows, key.keyType = .xray → isClosed key.status = true → key.id ∉ s.clients
  bundles : ∀ bundle ∈ s.bundles.rows, bundle.status ≠ .deleted

namespace Sound

variable {s s' : KeyTables} {key : VpnKey} {status : VpnKeyStatus}

theorem left (h : Sound s) (hkey : s.keys.find? key.id = some key) (hleft : Left key s s' status)
    (hwritten : Written key.keyType status)
    (hclosed : key.keyType = .xray → isClosed status = true → key.id ∉ s'.clients) : Sound s' := by
  have hmem := (Rows.find?_eq_some_iff.1 hkey).1
  -- a row of the new table is the row of the key or an old one
  have hrows : ∀ row ∈ s'.keys.rows, row = { key with status := status } ∨
      row ∈ s.keys.rows ∧ row.id ≠ key.id := by
    intro row hrow
    have hfind : s'.keys.find? row.id = some row := Rows.find?_eq_some_iff.2 ⟨hrow, rfl⟩
    by_cases hid : row.id = key.id
    · rw [hid, hleft.row] at hfind
      exact Or.inl (Option.some.inj hfind).symm
    · rw [hleft.only.keys _ hid] at hfind
      exact Or.inr ⟨(Rows.find?_eq_some_iff.1 hfind).1, hid⟩
  refine ⟨fun row hrow => ?_, fun row hrow => ?_, fun row hrow => ?_, ?_⟩
  · rcases hrows row hrow with rfl | ⟨hold, -⟩
    · exact hwritten
    · exact h.written row hold
  · rcases hrows row hrow with rfl | ⟨hold, -⟩
    · exact h.childType key hmem
    · exact h.childType row hold
  · rcases hrows row hrow with rfl | ⟨hold, hid⟩
    · exact hclosed
    · intro htype hst
      rw [hleft.only.clients _ hid]
      exact h.closed row hold htype hst
  · rw [hleft.only.bundles]
    exact h.bundles

/-- An operation that deletes a row. -/
theorem gone {id : ℕ} (h : Sound s) (honly : Only id s s') (hgone : s'.keys.find? id = none) :
    Sound s' := by
  have hrows : ∀ row ∈ s'.keys.rows, row ∈ s.keys.rows ∧ row.id ≠ id := by
    intro row hrow
    have hid : row.id ≠ id := Rows.find?_eq_none_iff.1 hgone row hrow
    have hfind : s'.keys.find? row.id = some row := Rows.find?_eq_some_iff.2 ⟨hrow, rfl⟩
    rw [honly.keys _ hid] at hfind
    exact ⟨(Rows.find?_eq_some_iff.1 hfind).1, hid⟩
  refine ⟨fun row hrow => h.written row (hrows row hrow).1,
    fun row hrow => h.childType row (hrows row hrow).1, fun row hrow htype hst => ?_, ?_⟩
  · rw [honly.clients _ (hrows row hrow).2]
    exact h.closed row (hrows row hrow).1 htype hst
  · rw [honly.bundles]
    exact h.bundles

end Sound

/-! ### Revoking a child -/

variable {Q : BundleError → KeyTables → Prop} {P : Unit → KeyTables → Prop}

section Revoke

variable {fault : ChildFaults} {key : VpnKey} {s : KeyTables}

/-- The calls that revoke a child whose row is not closed. -/
def revokeCalls : VpnKeyType → List ChildCall
  | .xray => [.setPending, .removeClient, .markRevoked, .readBack]
  | .hysteria2 => [.markRevoked, .readBack]
  | .awg => []

/-- None of the calls that revoke the child fails. -/
def RevokeReturns (fault : ChildFaults) (key : VpnKey) : Prop :=
  fault .checks = none ∧ (isClosed key.status = false → ∀ c ∈ revokeCalls key.keyType, fault c = none)

/-- The revocation fails before the access of the key is taken. -/
def SparesAccess (fault : ChildFaults) : VpnKeyType → Prop
  | .xray => fault .checks ≠ none ∨ fault .setPending ≠ none ∨ fault .removeClient = some .before
  | .hysteria2 => fault .checks ≠ none ∨ fault .markRevoked = some .before
  | .awg => True

structure Revoked (key : VpnKey) (s s' : KeyTables) : Prop where
  left : ∃ status, Left key s s' status ∧ isClosed status = true
  absent : key.keyType = .xray → key.id ∉ s'.clients

/-- The child is not revoked, or something has failed after it was. -/
structure NotRevoked (fault : ChildFaults) (key : VpnKey) (s s' : KeyTables) (status : VpnKeyStatus) :
    Prop where
  left : Left key s s' status
  written : Written key.keyType status
  closed : key.keyType = .xray → isClosed status = true → key.id ∉ s'.clients
  spared : SparesAccess fault key.keyType → s.Live key → s'.Live { key with status := status }

theorem not_revokeReturns {c : ChildCall} (hopen : isClosed key.status = false)
    (hc : c ∈ revokeCalls key.keyType) (hfault : fault c ≠ none) : ¬ RevokeReturns fault key :=
  fun h => hfault (h.2 hopen c hc)

theorem NotRevoked.start (hkey : s.keys.find? key.id = some key) (hsound : Sound s) :
    NotRevoked fault key s s key.status := by
  have hmem := (Rows.find?_eq_some_iff.1 hkey).1
  exact ⟨.start hkey, hsound.written key hmem, hsound.closed key hmem, fun _ hlive => hlive⟩

theorem ends_write {c : ChildCall} {effect : KeyTables → KeyTables}
    (hnone : fault c = none → P () (effect s)) (hbefore : fault c = some .before → Q .raised s)
    (hafter : fault c = some .after → Q .raised (effect s)) :
    Program.Ends (write fault c effect) P Q s := by
  rw [write, Program.ends_call]
  match hfault : fault c with
  | none => exact hnone hfault
  | some .before => exact hbefore hfault
  | some .after => exact hafter hfault

theorem ends_query {c : ChildCall}
    (hnone : fault c = none → P () s) (hfails : fault c ≠ none → Q .raised s) :
    Program.Ends (query fault c) P Q s :=
  Program.ends_call_of hnone hfails hfails

theorem ends_getKey {row : VpnKey} {P : VpnKey → KeyTables → Prop}
    (h : s.keys.find? key.id = some row) (hP : P row s) :
    Program.Ends (getKey key.id) P Q s := by
  rw [getKey, Program.ends_bind, Program.ends_get, h]
  exact hP

theorem ends_markRevoked {status : VpnKeyStatus} {s₀ : KeyTables} (h : Left key s₀ s status)
    (hopen : isClosed status = false)
    (hnone : fault .markRevoked = none → P () (s.markRevoked key.id))
    (hbefore : fault .markRevoked = some .before → Q .raised s)
    (hafter : fault .markRevoked = some .after → Q .raised (s.markRevoked key.id)) :
    Program.Ends (markRevoked fault key.id) P Q s := by
  rw [markRevoked, Program.ends_bind, Program.ends_get, Program.ends_bind, h.row]
  refine ends_write (fun hf => ?_) hbefore hafter
  have hany : (some { key with status := status }).any (fun key => !isClosed key.status) = true := by
    simpa using hopen
  rw [if_pos hany]
  exact hnone hf

theorem ends_markAndRead {status : VpnKeyStatus} {s₀ : KeyTables} (h : Left key s₀ s status)
    (hopen : isClosed status = false) :
    Program.Ends
      (do
        markRevoked fault key.id
        query fault .readBack
        let _ ← getKey key.id
        return ())
      (fun _ s' => (fault .markRevoked = none ∧ fault .readBack = none) ∧ Left key s₀ s' .revoked ∧
        s'.clients = s.clients)
      (fun _ s' => (fault .markRevoked ≠ none ∨ fault .readBack ≠ none) ∧ s'.clients = s.clients ∧
        (fault .markRevoked ≠ some .before ∧ Left key s₀ s' .revoked ∨ s' = s)) s := by
  have hrevoked := h.markRevoked hopen
  rw [Program.ends_bind]
  refine ends_markRevoked h hopen (fun hmark => ?_) (fun hmark => ?_) fun hmark => ?_
  · rw [Program.ends_bind]
    refine ends_query (fun hread => ?_) fun hread =>
      ⟨Or.inr hread, rfl, Or.inl ⟨by rw [hmark]; nofun, hrevoked⟩⟩
    rw [Program.ends_bind]
    exact ends_getKey hrevoked.row ⟨⟨hmark, hread⟩, hrevoked, rfl⟩
  · exact ⟨Or.inl (by rw [hmark]; nofun), rfl, Or.inr rfl⟩
  · exact ⟨Or.inl (by rw [hmark]; nofun), rfl, Or.inl ⟨by rw [hmark]; nofun, hrevoked⟩⟩

theorem accessMayExist_of_written {status : VpnKeyStatus} (hwritten : status ≠ .failed)
    (hopen : isClosed status = false) : status.accessMayExist = true := by
  cases status <;> first | rfl | exact absurd rfl hwritten | exact absurd hopen (by decide)

theorem ends_revokeXrayKey (hsound : Sound s) (hkey : s.keys.find? key.id = some key)
    (htype : key.keyType = .xray) :
    Program.Ends (revokeXrayKey fault key.id)
      (fun _ s' => RevokeReturns fault key ∧ Revoked key s s')
      (fun _ s' => ¬ RevokeReturns fault key ∧ ∃ status, NotRevoked fault key s s' status) s := by
  have hstart : NotRevoked fault key s s key.status := .start hkey hsound
  rw [revokeXrayKey, Program.ends_bind]
  refine ends_query (fun hchecks => ?_) fun hchecks => ⟨fun h => hchecks h.1, _, hstart⟩
  rw [Program.ends_bind]
  refine ends_getKey hkey ?_
  rw [if_neg (not_not.2 htype)]
  cases hopen : isClosed key.status with
  | true =>
    rw [if_pos rfl]
    exact ⟨⟨hchecks, fun h => nomatch hopen.symm.trans h⟩, ⟨_, hstart.left, hopen⟩,
      fun htype => hstart.closed htype hopen⟩
  | false =>
    have hwritten : key.status ≠ .failed := by
      have h := hstart.written
      rwa [htype] at h
    have haccess := accessMayExist_of_written hwritten hopen
    have hraises : ∀ c ∈ revokeCalls .xray, fault c ≠ none → ¬ RevokeReturns fault key :=
      fun c hc => not_revokeReturns hopen (htype ▸ hc)
    -- what an exception leaves: a status, and the client as it was or none
    have hleaves : ∀ {status : VpnKeyStatus} {s' : KeyTables}, Left key s s' status →
        status ≠ .failed → (isClosed status = true → key.id ∉ s'.clients) →
        (SparesAccess fault .xray → key.id ∈ s.clients → key.id ∈ s'.clients) →
        NotRevoked fault key s s' status := by
      intro status s' hleft hfailed hclosed hspared
      refine ⟨hleft, by rwa [htype], fun _ => hclosed, ?_⟩
      unfold KeyTables.Live
      simp only [htype]
      exact hspared
    rw [if_neg Bool.false_ne_true, haccess, Bool.not_true, if_neg Bool.false_ne_true, Program.ends_bind]
    have hpending : Left key s (s.setStatus key.id .pendingRevoke) .pendingRevoke :=
      (Left.start hkey).setStatus _
    have hremoved := hpending.removeClient
    have habsent := KeyTables.not_mem_removeClient (s.setStatus key.id .pendingRevoke) key.id
    -- the removal has raised, and the previous status is put back
    have hrestore : ∀ {P : Unit → KeyTables → Prop} {s₁ : KeyTables}, Left key s s₁ .pendingRevoke →
        fault .removeClient ≠ none →
        (SparesAccess fault .xray → key.id ∈ s.clients → key.id ∈ s₁.clients) →
        Program.Ends
          (do
            write fault .restoreStatus (KeyTables.setStatus key.id key.status)
            throw BundleError.raised) P
          (fun _ s' => ¬ RevokeReturns fault key ∧ ∃ status, NotRevoked fault key s s' status) s₁ := by
      intro P s₁ h₁ hremove hspared
      have hrestored := hleaves (h₁.setStatus key.status) hwritten
        (fun h => nomatch hopen.symm.trans h) hspared
      have hstays := hleaves h₁ nofun nofun hspared
      have hraises' := hraises .removeClient (by decide) hremove
      rw [Program.ends_bind]
      exact ends_write (fun _ => ⟨hraises', _, hrestored⟩) (fun _ => ⟨hraises', _, hstays⟩)
        fun _ => ⟨hraises', _, hrestored⟩
    refine ends_write (fun hset => ?_) (fun hset => ?_) fun hset => ?_
    · rw [Program.ends_bind, Program.ends_tryCatch]
      refine ends_write (fun hremove => ?_) (fun hremove => ?_) fun hremove => ?_
      · -- the client is gone
        have hspares : ¬ SparesAccess fault .xray := by simp [SparesAccess, hchecks, hset, hremove]
        refine (ends_markAndRead hremoved rfl).mono ?_ ?_
        · rintro - s' ⟨⟨hmark, hread⟩, hleft, hclients⟩
          refine ⟨⟨hchecks, fun _ c hc => ?_⟩, ⟨_, hleft, rfl⟩, fun _ => by rwa [hclients]⟩
          rw [htype] at hc
          simp only [revokeCalls, List.mem_cons, List.not_mem_nil, or_false] at hc
          rcases hc with rfl | rfl | rfl | rfl <;> assumption
        · rintro - s' ⟨hfails, hclients, hleft⟩
          refine ⟨?_, ?_⟩
          · rcases hfails with hfails | hfails
            · exact hraises .markRevoked (by decide) hfails
            · exact hraises .readBack (by decide) hfails
          · rcases hleft with ⟨-, hleft⟩ | rfl
            · exact ⟨_, hleaves hleft nofun (fun _ => by rwa [hclients]) fun h => absurd h hspares⟩
            · exact ⟨_, hleaves hremoved nofun (fun _ => habsent) fun h => absurd h hspares⟩
      · exact hrestore hpending (by rw [hremove]; nofun) fun _ hclient => hclient
      · have hspares : ¬ SparesAccess fault .xray := by simp [SparesAccess, hchecks, hset, hremove]
        exact hrestore hremoved (by rw [hremove]; nofun) fun h => absurd h hspares
    · exact ⟨hraises .setPending (by decide) (by rw [hset]; nofun), _, hstart⟩
    · exact ⟨hraises .setPending (by decide) (by rw [hset]; nofun), _,
        hleaves hpending nofun nofun fun _ hclient => hclient⟩

theorem ends_revokeHysteria2Key (hsound : Sound s) (hkey : s.keys.find? key.id = some key)
    (htype : key.keyType = .hysteria2) :
    Program.Ends (revokeHysteria2Key fault key.id)
      (fun _ s' => RevokeReturns fault key ∧ Revoked key s s')
      (fun _ s' => ¬ RevokeReturns fault key ∧ ∃ status, NotRevoked fault key s s' status) s := by
  have hstart : NotRevoked fault key s s key.status := .start hkey hsound
  have hxray : key.keyType ≠ .xray := by
    rw [htype]
    nofun
  rw [revokeHysteria2Key, Program.ends_bind]
  refine ends_query (fun hchecks => ?_) fun hchecks => ⟨fun h => hchecks h.1, _, hstart⟩
  rw [Program.ends_bind]
  refine ends_getKey hkey ?_
  rw [if_neg (not_not.2 htype)]
  cases hopen : isClosed key.status with
  | true =>
    rw [if_pos rfl]
    exact ⟨⟨hchecks, fun h => nomatch hopen.symm.trans h⟩, ⟨_, hstart.left, hopen⟩,
      fun h => absurd h hxray⟩
  | false =>
    have hrevocable : hysteria2Revocable key.status = true := by
      have h := hstart.written
      rw [htype] at h
      exact h.resolve_right (by rw [hopen]; nofun)
    have hraises : ∀ c ∈ revokeCalls .hysteria2, fault c ≠ none → ¬ RevokeReturns fault key :=
      fun c hc => not_revokeReturns hopen (htype ▸ hc)
    rw [if_neg Bool.false_ne_true, hrevocable, Bool.not_true, if_neg Bool.false_ne_true]
    refine (ends_markAndRead hstart.left hopen).mono ?_ ?_
    · rintro - s' ⟨⟨hmark, hread⟩, hleft, -⟩
      refine ⟨⟨hchecks, fun _ c hc => ?_⟩, ⟨_, hleft, rfl⟩, fun h => absurd h hxray⟩
      rw [htype] at hc
      simp only [revokeCalls, List.mem_cons, List.not_mem_nil, or_false] at hc
      rcases hc with rfl | rfl <;> assumption
    · rintro - s' ⟨hfails, -, hleft⟩
      refine ⟨?_, ?_⟩
      · rcases hfails with hfails | hfails
        · exact hraises .markRevoked (by decide) hfails
        · exact hraises .readBack (by decide) hfails
      · rcases hleft with ⟨hmark, hleft⟩ | rfl
        · refine ⟨_, hleft, by rw [htype]; exact Or.inr rfl, fun h => absurd h hxray, fun hspares => ?_⟩
          rw [htype] at hspares
          rcases hspares with hspares | hspares
          · exact absurd hchecks hspares
          · exact absurd hspares hmark
        · exact ⟨_, hstart⟩

/-- **The revocation of a child**, whatever calls fail. -/
theorem ends_revokeChild (hsound : Sound s) (hkey : s.keys.find? key.id = some key)
    (hchild : key.keyType ≠ .awg) :
    Program.Ends (revokeChild fault key)
      (fun _ s' => RevokeReturns fault key ∧ Revoked key s s')
      (fun _ s' => ¬ RevokeReturns fault key ∧ ∃ status, NotRevoked fault key s s' status) s := by
  unfold revokeChild
  cases htype : key.keyType with
  | xray => exact ends_revokeXrayKey hsound hkey htype
  | hysteria2 => exact ends_revokeHysteria2Key hsound hkey htype
  | awg => exact absurd htype hchild

end Revoke

/-! ### Deleting a child -/

section Delete

variable {fault : ChildFaults} {key : VpnKey} {s s' : KeyTables}

structure Deleted (key : VpnKey) (s s' : KeyTables) : Prop where
  only : Only key.id s s'
  row : s'.keys.find? key.id = none
  absent : key.keyType = .xray → key.id ∉ s'.clients

/-- The deletion has raised: the row is gone all the same, or it stays, in a status of a removal if it
was begun. -/
structure NotDeleted (key : VpnKey) (s s' : KeyTables) : Prop where
  only : Only key.id s s'
  clients : key.id ∈ s'.clients → key.id ∈ s.clients
  row : s'.keys.find? key.id = none ∨ ∃ status, s'.keys.find? key.id = some { key with status := status } ∧
    (status = key.status ∨ key.keyType = .xray ∧ isRemoval status = true)

theorem isClosed_of_isRemoval {status : VpnKeyStatus} (h : isRemoval status = true) :
    isClosed status = false := by
  cases status <;> first | rfl | exact absurd h (by decide)

theorem Sound.deleted (h : Sound s) (hdeleted : Deleted key s s') : Sound s' :=
  h.gone hdeleted.only hdeleted.row

theorem Sound.notDeleted (h : Sound s) (hkey : s.keys.find? key.id = some key)
    (hnot : NotDeleted key s s') : Sound s' := by
  have hmem := (Rows.find?_eq_some_iff.1 hkey).1
  rcases hnot.row with hgone | ⟨status, hrow, hstatus⟩
  · exact h.gone hnot.only hgone
  · refine h.left hkey ⟨hnot.only, hrow⟩ ?_ ?_
    · rcases hstatus with rfl | ⟨htype, hremoval⟩
      · exact h.written key hmem
      · rw [htype]
        rintro rfl
        cases hremoval
    · intro htype hclosed hclient
      rcases hstatus with rfl | ⟨-, hremoval⟩
      · exact h.closed key hmem htype hclosed (hnot.clients hclient)
      · rw [isClosed_of_isRemoval hremoval] at hclosed
        cases hclosed

theorem find?_hardDelete : (s.hardDelete key.id).keys.find? key.id = none := Rows.find?_delete_self

theorem NotDeleted.start (hkey : s.keys.find? key.id = some key) : NotDeleted key s s :=
  ⟨.rfl', fun h => h, Or.inr ⟨_, hkey, Or.inl rfl⟩⟩

/-- The last call of a deletion. -/
theorem ends_hardDelete {s₀ : KeyTables} (hnot : NotDeleted key s₀ s)
    (habsent : key.keyType = .xray → key.id ∉ s.clients) :
    Program.Ends (write fault .hardDelete (KeyTables.hardDelete key.id))
      (fun _ s' => Deleted key s₀ s')
      (fun _ s' => (∃ c, fault c ≠ none) ∧ NotDeleted key s₀ s') s := by
  have honly := hnot.only.trans (Only.hardDelete (s := s))
  refine ends_write (fun _ => ⟨honly, find?_hardDelete, habsent⟩) (fun hf => ?_) fun hf => ?_
  · exact ⟨⟨_, by rw [hf]; nofun⟩, hnot⟩
  · exact ⟨⟨.hardDelete, by rw [hf]; nofun⟩, honly, hnot.clients, Or.inl find?_hardDelete⟩

theorem ends_deleteXrayKey (hsound : Sound s) (hkey : s.keys.find? key.id = some key)
    (htype : key.keyType = .xray) :
    Program.Ends (deleteXrayKey fault key.id) (fun _ s' => Deleted key s s')
      (fun _ s' => (∃ c, fault c ≠ none) ∧ NotDeleted key s s') s := by
  have hmem := (Rows.find?_eq_some_iff.1 hkey).1
  have hstart := NotDeleted.start hkey
  rw [deleteXrayKey, Program.ends_bind]
  refine ends_query (fun hchecks => ?_) fun hchecks => ⟨⟨_, hchecks⟩, hstart⟩
  rw [Program.ends_bind]
  refine ends_getKey hkey ?_
  rw [if_neg (not_not.2 htype), Program.ends_bind]
  have hpending : Left key s (s.setStatus key.id .pendingDelete) .pendingDelete :=
    (Left.start hkey).setStatus _
  -- a status of a removal, with the client as it was or none
  have hleaves : ∀ {status : VpnKeyStatus} {s' : KeyTables}, Left key s s' status →
      isRemoval status = true → (key.id ∈ s'.clients → key.id ∈ s.clients) → NotDeleted key s s' :=
    fun hleft hremoval hclients =>
      ⟨hleft.only, hclients, Or.inr ⟨_, hleft.row, Or.inr ⟨htype, hremoval⟩⟩⟩
  have hbegun := hleaves hpending rfl fun h => h
  refine ends_write (fun hset => ?_) (fun hset => ⟨⟨_, by rw [hset]; nofun⟩, hstart⟩)
    fun hset => ⟨⟨.setPending, by rw [hset]; nofun⟩, hbegun⟩
  cases haccess : key.status.accessMayExist with
  | true =>
    have hremoved := hpending.removeClient
    have habsent := KeyTables.not_mem_removeClient (s.setStatus key.id .pendingDelete) key.id
    have hfails : ∀ {P : Unit → KeyTables → Prop} {s₁ : KeyTables}, Left key s s₁ .pendingDelete →
        (key.id ∈ s₁.clients → key.id ∈ s.clients) → fault .removeClient ≠ none →
        Program.Ends
          (do
            write fault .markDeleteFailed (KeyTables.setStatus key.id .deleteFailed)
            throw BundleError.raised) P
          (fun _ s' => (∃ c, fault c ≠ none) ∧ NotDeleted key s s') s₁ := by
      intro P s₁ h₁ hclients hremove
      have hfailed := hleaves (h₁.setStatus .deleteFailed) rfl hclients
      rw [Program.ends_bind]
      exact ends_write (fun _ => ⟨⟨_, hremove⟩, hfailed⟩)
        (fun _ => ⟨⟨_, hremove⟩, hleaves h₁ rfl hclients⟩) fun _ => ⟨⟨_, hremove⟩, hfailed⟩
    rw [if_pos rfl, Program.ends_bind, Program.ends_tryCatch]
    refine ends_write (fun hremove => ?_) (fun hremove => ?_) fun hremove => ?_
    · exact ends_hardDelete (hleaves hremoved rfl fun h => absurd h habsent) fun _ => habsent
    · exact hfails hpending (fun h => h) (by rw [hremove]; nofun)
    · exact hfails hremoved (fun h => absurd h habsent) (by rw [hremove]; nofun)
  | false =>
    -- a closed row has no client
    have hclosed : isClosed key.status = true := by
      have hwritten := hsound.written key hmem
      rw [htype] at hwritten
      by_contra hopen
      rw [accessMayExist_of_written hwritten (by simpa using hopen)] at haccess
      cases haccess
    rw [if_neg Bool.false_ne_true]
    exact ends_hardDelete hbegun fun _ => hsound.closed key hmem htype hclosed

theorem ends_deleteHysteria2Key (hkey : s.keys.find? key.id = some key)
    (htype : key.keyType = .hysteria2) :
    Program.Ends (deleteHysteria2Key fault key.id) (fun _ s' => Deleted key s s')
      (fun _ s' => (∃ c, fault c ≠ none) ∧ NotDeleted key s s') s := by
  have hstart := NotDeleted.start hkey
  rw [deleteHysteria2Key, Program.ends_bind]
  refine ends_query (fun hchecks => ?_) fun hchecks => ⟨⟨_, hchecks⟩, hstart⟩
  rw [Program.ends_bind]
  refine ends_getKey hkey ?_
  rw [if_neg (not_not.2 htype)]
  exact ends_hardDelete hstart fun h => nomatch htype.symm.trans h

/-- **The deletion of a child**, whatever calls fail. -/
theorem ends_deleteChild (hsound : Sound s) (hkey : s.keys.find? key.id = some key)
    (hchild : key.keyType ≠ .awg) :
    Program.Ends (deleteChild fault key) (fun _ s' => Deleted key s s')
      (fun _ s' => (∃ c, fault c ≠ none) ∧ NotDeleted key s s') s := by
  unfold deleteChild
  cases htype : key.keyType with
  | xray => exact ends_deleteXrayKey hsound hkey htype
  | hysteria2 => exact ends_deleteHysteria2Key hkey htype
  | awg => exact absurd htype hchild

end Delete

end VpnBot.KeyBundles
