import VpnBot.KeyBundles.ChildFrame

/-!
# Issuing a child

`_provision_child` adds at most one row, which belongs to no bundle yet (`Issued`): an active one when it
returns, and whatever its last call has left when it raises.
-/

namespace VpnBot.KeyBundles

open Py Sys
open Bundles (BundleMember)

/-- One row was added, and one client at most. -/
structure Issued (member : BundleMember) (expiresAt : Option ℕ) (s s' : KeyTables)
    (status : VpnKeyStatus) : Prop where
  rows : s'.keys.rows = s.keys.rows ++ [KeyTables.issuedKey member expiresAt s.keys.next status]
  next : s'.keys.next = s.keys.next + 1
  clients : ∀ j, j ≠ s.keys.next → (j ∈ s'.clients ↔ j ∈ s.clients)
  bundles : s'.bundles = s.bundles
  revocable : hysteria2Revocable status = true

section Issue

variable {member : BundleMember} {expiresAt : Option ℕ} {s s' : KeyTables} {status : VpnKeyStatus}
  {fault : ChildFaults}

namespace Issued

theorem insertPending : Issued member expiresAt s (s.insertPending member expiresAt) .pendingApply :=
  ⟨rfl, rfl, fun _ _ => Iff.rfl, rfl, rfl⟩

theorem mapStatus (h : Issued member expiresAt s s' status) (f : VpnKeyStatus → VpnKeyStatus)
    (hf : hysteria2Revocable (f status) = true) :
    Issued member expiresAt s (s'.mapStatus s.keys.next f) (f status) := by
  refine ⟨?_, h.next, h.clients, h.bundles, hf⟩
  have hold : s.keys.rows.map (fun row => if row.id = s.keys.next then row.mapStatus f else row) =
      s.keys.rows :=
    (List.map_congr_left fun row hrow => if_neg (s.keys.below row hrow).ne).trans (List.map_id _)
  show s'.keys.rows.map (fun row => if row.id = s.keys.next then row.mapStatus f else row) = _
  rw [h.rows, List.map_append, hold]
  congr 1
  rw [List.map_cons, List.map_nil]
  congr 1
  exact if_pos rfl

theorem addClient (h : Issued member expiresAt s s' status) :
    Issued member expiresAt s (s'.addClient s.keys.next) status :=
  ⟨h.rows, h.next, fun j hj => by simpa [KeyTables.addClient, hj] using h.clients j hj, h.bundles,
    h.revocable⟩

theorem removeClient (h : Issued member expiresAt s s' status) :
    Issued member expiresAt s (s'.removeClient s.keys.next) status :=
  ⟨h.rows, h.next, fun j hj => by simpa [KeyTables.removeClient, hj] using h.clients j hj, h.bundles,
    h.revocable⟩

theorem mem_rows (h : Issued member expiresAt s s' status) {row : VpnKey} :
    row ∈ s'.keys.rows ↔ row ∈ s.keys.rows ∨ row = KeyTables.issuedKey member expiresAt s.keys.next status := by
  rw [h.rows, List.mem_append, List.mem_singleton]

theorem open_status (h : Issued member expiresAt s s' status) : isClosed status = false := by
  have hrevocable := h.revocable
  cases status <;> first | rfl | exact absurd hrevocable (by decide)

theorem sound (h : Issued member expiresAt s s' status) (hsound : Sound s) : Sound s' := by
  refine ⟨fun row hrow => ?_, fun row hrow => ?_, fun row hrow => ?_, ?_⟩
  · rcases h.mem_rows.1 hrow with hold | rfl
    · exact hsound.written row hold
    · obtain ⟨keyType, transport, profile, relay⟩ := member
      cases keyType with
      | xray =>
        rintro rfl
        exact absurd h.revocable (by decide)
      | hysteria2 => exact Or.inl h.revocable
  · rcases h.mem_rows.1 hrow with hold | rfl
    · exact hsound.childType row hold
    · exact fun hbundle => absurd rfl hbundle
  · rcases h.mem_rows.1 hrow with hold | rfl
    · intro htype hclosed
      rw [h.clients _ (s.keys.below row hold).ne]
      exact hsound.closed row hold htype hclosed
    · intro _ hclosed
      exact absurd (h.open_status.symm.trans hclosed) Bool.false_ne_true
  · rw [h.bundles]
    exact hsound.bundles

end Issued

/-- What a failed issue leaves: nothing, or a row that belongs to no bundle. -/
def MaybeIssued (member : BundleMember) (expiresAt : Option ℕ) (s s' : KeyTables) : Prop :=
  s' = s ∨ ∃ status, Issued member expiresAt s s' status

theorem ends_attempt_write {c : ChildCall} {effect : KeyTables → KeyTables} {P : Bool → KeyTables → Prop}
    {Q : BundleError → KeyTables → Prop} (hdone : ∀ b, P b (effect s)) (hnot : P false s) :
    Program.Ends (Program.attempt (write fault c effect)) P Q s := by
  rw [Program.ends_attempt]
  exact ends_write (fun _ => hdone true) (fun _ => hnot) fun _ => hdone false

theorem ends_createPending {P : ℕ → KeyTables → Prop}
    (hP : fault .insertPending = none → fault .readPending = none →
      P s.keys.next (s.insertPending member expiresAt)) :
    Program.Ends (createPending fault member expiresAt) P
      (fun _ s' => (∃ c, fault c ≠ none) ∧ MaybeIssued member expiresAt s s') s := by
  rw [createPending, Program.ends_bind, Program.ends_get, Program.ends_bind]
  refine ends_write (fun hinsert => ?_) (fun hinsert => ⟨⟨.insertPending, by rw [hinsert]; nofun⟩,
    Or.inl rfl⟩) fun hinsert => ⟨⟨.insertPending, by rw [hinsert]; nofun⟩, Or.inr ⟨_, .insertPending⟩⟩
  rw [Program.ends_bind]
  exact ends_query (fun hread => hP hinsert hread) fun hread =>
    ⟨⟨_, hread⟩, Or.inr ⟨_, .insertPending⟩⟩

theorem ends_readBack (h : Issued member expiresAt s s' .active) :
    Program.Ends
      (do
        query fault .readActive
        query fault .config
        return s.keys.next)
      (fun id s' => id = s.keys.next ∧ Issued member expiresAt s s' .active)
      (fun _ s' => (∃ c, fault c ≠ none) ∧ MaybeIssued member expiresAt s s') s' := by
  rw [Program.ends_bind]
  refine ends_query (fun _ => ?_) fun hread => ⟨⟨_, hread⟩, Or.inr ⟨_, h⟩⟩
  rw [Program.ends_bind]
  exact ends_query (fun _ => ⟨rfl, h⟩) fun hconfig => ⟨⟨_, hconfig⟩, Or.inr ⟨_, h⟩⟩

theorem ends_createXrayKey : Program.Ends (createXrayKey fault member expiresAt)
    (fun id s' => id = s.keys.next ∧ Issued member expiresAt s s' .active)
    (fun _ s' => (∃ c, fault c ≠ none) ∧ MaybeIssued member expiresAt s s') s := by
  rw [createXrayKey, Program.ends_bind]
  refine ends_query (fun hchecks => ?_) fun hchecks => ⟨⟨_, hchecks⟩, Or.inl rfl⟩
  rw [Program.ends_bind]
  refine ends_createPending fun hinsert hread => ?_
  have hpending : Issued member expiresAt s (s.insertPending member expiresAt) .pendingApply :=
    .insertPending
  rw [Program.ends_bind]
  refine ends_query (fun hlink => ?_) fun hlink => ⟨⟨_, hlink⟩, Or.inr ⟨_, hpending⟩⟩
  -- the client was not added, or its call has raised
  have happlyFails : ∀ {P : Unit → KeyTables → Prop} {s₁ : KeyTables} {c : ChildCall},
      Issued member expiresAt s s₁ .pendingApply → fault c ≠ none →
      Program.Ends
        (do
          write fault .markApplyFailed (KeyTables.setStatus s.keys.next .applyFailed)
          throw BundleError.raised) P
        (fun _ s' => (∃ c, fault c ≠ none) ∧ MaybeIssued member expiresAt s s') s₁ := by
    intro P s₁ c h₁ hc
    have hmarked := h₁.mapStatus (fun _ => .applyFailed) rfl
    rw [Program.ends_bind]
    exact ends_write (fun _ => ⟨⟨c, hc⟩, Or.inr ⟨_, hmarked⟩⟩) (fun _ => ⟨⟨c, hc⟩, Or.inr ⟨_, h₁⟩⟩)
      fun _ => ⟨⟨c, hc⟩, Or.inr ⟨_, hmarked⟩⟩
  rw [Program.ends_bind, Program.ends_tryCatch, Program.ends_bind]
  refine ends_query (fun hrecheck => ?_) fun hrecheck => happlyFails hpending hrecheck
  have hadded := hpending.addClient
  refine ends_write (fun hadd => ?_) (fun hadd => happlyFails (c := .addClient) hpending ?_)
    fun hadd => happlyFails (c := .addClient) hadded ?_
  · -- the compensation takes the client back
    have hcompensates : ∀ {P : Unit → KeyTables → Prop} {s₁ : KeyTables} {status : VpnKeyStatus},
        Issued member expiresAt s s₁ status → fault .markActive ≠ none →
        Program.Ends
          (do
            compensateFailedCreateAfterApply fault s.keys.next
            throw BundleError.raised) P
          (fun _ s' => (∃ c, fault c ≠ none) ∧ MaybeIssued member expiresAt s s') s₁ := by
      intro P s₁ status h₁ hmark
      have hremoved := h₁.removeClient
      have hmarked := hremoved.mapStatus (fun _ => .applyFailed) rfl
      rw [Program.ends_bind, compensateFailedCreateAfterApply, Program.ends_bind]
      refine ends_attempt_write (fun b => ?_) ⟨⟨_, hmark⟩, Or.inr ⟨_, h₁⟩⟩
      cases b with
      | true =>
        rw [if_pos rfl, Program.ends_bind]
        exact ends_attempt_write (fun _ => ⟨⟨_, hmark⟩, Or.inr ⟨_, hmarked⟩⟩)
          ⟨⟨_, hmark⟩, Or.inr ⟨_, hremoved⟩⟩
      | false => exact ⟨⟨_, hmark⟩, Or.inr ⟨_, hremoved⟩⟩
    have hactive := hadded.mapStatus
      (fun status => if status = .pendingApply ∨ status = .applyFailed then .active else status) rfl
    rw [Program.ends_bind, Program.ends_tryCatch]
    refine ends_write (fun hmark => ?_) (fun hmark => hcompensates hadded ?_)
      fun hmark => hcompensates hactive ?_
    · exact ends_readBack hactive
    · rw [hmark]
      nofun
    · rw [hmark]
      nofun
  · rw [hadd]
    nofun
  · rw [hadd]
    nofun

theorem ends_issueHysteria2Key : Program.Ends (issueHysteria2Key fault member expiresAt)
    (fun id s' => id = s.keys.next ∧ Issued member expiresAt s s' .active)
    (fun _ s' => (∃ c, fault c ≠ none) ∧ MaybeIssued member expiresAt s s') s := by
  rw [issueHysteria2Key, Program.ends_bind]
  refine ends_query (fun hchecks => ?_) fun hchecks => ⟨⟨_, hchecks⟩, Or.inl rfl⟩
  rw [Program.ends_bind]
  refine ends_createPending fun hinsert hread => ?_
  have hpending : Issued member expiresAt s (s.insertPending member expiresAt) .pendingApply :=
    .insertPending
  have hactive := hpending.mapStatus
    (fun status => if status = .pendingApply ∨ status = .applyFailed then .active else status) rfl
  have hfails : ∀ {P : Unit → KeyTables → Prop} {s₁ : KeyTables} {status : VpnKeyStatus},
      Issued member expiresAt s s₁ status → fault .markActive ≠ none →
      Program.Ends
        (do
          let _ ← Program.attempt
            (write fault .markApplyFailed (KeyTables.setStatus s.keys.next .applyFailed))
          throw BundleError.raised) P
        (fun _ s' => (∃ c, fault c ≠ none) ∧ MaybeIssued member expiresAt s s') s₁ := by
    intro P s₁ status h₁ hmark
    have hmarked := h₁.mapStatus (fun _ => .applyFailed) rfl
    rw [Program.ends_bind]
    exact ends_attempt_write (fun _ => ⟨⟨_, hmark⟩, Or.inr ⟨_, hmarked⟩⟩) ⟨⟨_, hmark⟩, Or.inr ⟨_, h₁⟩⟩
  rw [Program.ends_bind, Program.ends_tryCatch]
  refine ends_write (fun hmark => ?_) (fun hmark => hfails hpending ?_) fun hmark => hfails hactive ?_
  · exact ends_readBack hactive
  · rw [hmark]
    nofun
  · rw [hmark]
    nofun

/-- **The issue of a child**, whatever calls fail. -/
theorem ends_provisionChild : Program.Ends (provisionChild fault member expiresAt)
    (fun id s' => id = s.keys.next ∧ Issued member expiresAt s s' .active)
    (fun _ s' => (∃ c, fault c ≠ none) ∧ MaybeIssued member expiresAt s s') s := by
  unfold provisionChild
  cases member.keyType with
  | xray => exact ends_createXrayKey
  | hysteria2 => exact ends_issueHysteria2Key

end Issue

/-! ### Attaching a child -/

section Attach

variable {s : KeyTables} {id : ℕ}

theorem Sound.attachKeyToBundle (h : Sound s) {bundleId : ℕ}
    (htype : ∀ key ∈ s.keys.rows, key.id = id → key.keyType ≠ .awg) :
    Sound (s.attachKeyToBundle id bundleId) := by
  have hrows : ∀ row ∈ (s.attachKeyToBundle id bundleId).keys.rows, ∃ old ∈ s.keys.rows,
      row.keyType = old.keyType ∧ row.status = old.status ∧ row.id = old.id ∧
        (row.bundleId = old.bundleId ∨ old.id = id) := by
    intro row hrow
    have hmem : row ∈ (s.keys.update id (VpnKey.attachTo bundleId) fun _ => rfl).rows := hrow
    rcases (Rows.mem_update _).1 hmem with ⟨hold, -⟩ | ⟨old, hold, hid, rfl⟩
    · exact ⟨row, hold, rfl, rfl, rfl, Or.inl rfl⟩
    · exact ⟨old, hold, rfl, rfl, rfl, Or.inr hid⟩
  refine ⟨fun row hrow => ?_, fun row hrow hbundle => ?_, fun row hrow => ?_, h.bundles⟩
  · obtain ⟨old, hold, ht, hst, -⟩ := hrows row hrow
    rw [ht, hst]
    exact h.written old hold
  · obtain ⟨old, hold, ht, -, -, hb⟩ := hrows row hrow
    rw [ht]
    rcases hb with hb | hid
    · exact h.childType old hold (hb ▸ hbundle)
    · exact htype old hold hid
  · obtain ⟨old, hold, ht, hst, hid, -⟩ := hrows row hrow
    rw [ht, hst, hid]
    exact h.closed old hold

theorem ends_attachKey {fault : ChildFaults} {bundleId : ℕ} {P : Unit → KeyTables → Prop}
    {Q : BundleError → KeyTables → Prop} (hbundle : (s.bundles.find? bundleId).isSome)
    (hnone : fault .attach = none → P () (s.attachKeyToBundle id bundleId))
    (hbefore : fault .attach = some .before → Q .raised s)
    (hafter : fault .attach = some .after → Q .raised (s.attachKeyToBundle id bundleId)) :
    Program.Ends (attachKey fault id bundleId) P Q s := by
  rw [attachKey, Program.ends_bind, Program.ends_get, if_pos hbundle]
  exact ends_write hnone hbefore hafter

end Attach

end VpnBot.KeyBundles
