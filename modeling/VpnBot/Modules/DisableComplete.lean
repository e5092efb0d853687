import VpnBot.Modules.Operations

/-!
# A disabled module has no access left

When `disable_protocol` returns without failures, the flag is off, every access of the module is deleted
and the backend has none of their artefacts (`disable_complete`), provided that no row is inserted after
the last page of the listing (`InTime`): the purge goes through the ids of the listing only, and an issue
that has passed the check of the flag may insert its row later (`not_disable_complete`).

`Table` ties each artefact on the backend to a row in a status in which it may be there, `Place` says
what the operation in the lock knows, and `Purged` what is left for the purge: each row is deleted or
among the ids to come.
-/

namespace VpnBot.Modules

open Py Sys

/-- A row is inserted only before the listing is complete. -/
def InTime (s : ModuleState) (a : Action) : Prop := inserts s a = true → s.purge.listed = false

instance (s : ModuleState) (a : Action) : Decidable (InTime s a) :=
  inferInstanceAs (Decidable (_ → _))

/-! ### The table -/

namespace ProtocolModule

/-- The module of `delete_mtproto_proxy`, which has two halves. -/
def marksLater : ProtocolModule → Bool
  | .mtproto _ => true
  | .xray | .awg | .hysteria2 | .socks5 => false

/-- The artefact of an access in the status may be on the backend. -/
def mayHold : ProtocolModule → AccessStatus → Bool
  | .xray, status | .awg, status | .mtproto _, status => status.accessMayExist
  | .hysteria2, _ => false
  | .socks5, status => status ≠ .deleted

end ProtocolModule

/-- A managed access whose artefact may be on the backend. -/
def Holds (m : ProtocolModule) (access : Access) : Prop :=
  access.managed = true ∧ m.mayHold access.status = true

/-- The row of the access is in the table, with the status. -/
def Held (accesses : List Access) (access : Access) (status : AccessStatus) : Prop :=
  access.managed = true ∧ { access with status := status } ∈ accesses

/-- The artefacts on the backend belong to other accesses than that of the id. -/
def Unowned (m : ProtocolModule) (accesses : List Access) (backend : List Text) (id : ℕ) : Prop :=
  ∀ artefact ∈ backend, ∃ other ∈ accesses, other.id ≠ id ∧ other.artefact = artefact ∧ Holds m other

/-- The access of the id is closed. -/
def Closed (accesses : List Access) (id : ℕ) : Prop :=
  ∀ access ∈ accesses, access.id = id → access.status.isClosed = true

/-- The access of the id is deleted. -/
def Gone (accesses : List Access) (id : ℕ) : Prop :=
  ∀ access ∈ accesses, access.id = id → access.status = .deleted

/-- The rows are in the order of their ids, and each artefact on the backend belongs to one of them. -/
structure Table (m : ProtocolModule) (accesses : List Access) (nextId : ℕ) (backend : List Text) :
    Prop where
  pos : 0 < nextId
  sorted : accesses.Pairwise fun a b => a.id < b.id
  below : ∀ access ∈ accesses, 0 < access.id ∧ access.id < nextId
  present : m.softDeletes = false → ∀ access ∈ accesses, access.status ≠ .deleted
  managed : m.marksLater = false → ∀ access ∈ accesses, access.managed = true
  bound : ∀ artefact ∈ backend, ∃ access ∈ accesses, access.artefact = artefact ∧ Holds m access

/-- The rows below an id are those of before; a deleted access stays deleted, and one of MTProto that is
closed stays closed. -/
def Fades (m : ProtocolModule) (nextId : ℕ) (accesses accesses' : List Access) : Prop :=
  ∀ access' ∈ accesses', access'.id < nextId → ∃ access ∈ accesses, access.id = access'.id ∧
    access.managed = access'.managed ∧ (access.status = .deleted → access'.status = .deleted) ∧
    (m.marksLater = true → access.status.isClosed = true → access'.status.isClosed = true)

variable {m : ProtocolModule} {accesses accesses' : List Access} {nextId : ℕ} {backend : List Text}
  {access : Access} {status : AccessStatus} {id : ℕ}

theorem Table.eq_of_id (h : Table m accesses nextId backend) {a b : Access} (ha : a ∈ accesses)
    (hb : b ∈ accesses) (hid : a.id = b.id) : a = b := by
  have hids : (accesses.map Access.id).Nodup :=
    List.pairwise_map.2 (h.sorted.imp fun hlt => hlt.ne)
  exact List.inj_on_of_nodup_map hids ha hb hid

theorem Table.eq_held (h : Table m accesses nextId backend) (hheld : Held accesses access status)
    {row : Access} (hrow : row ∈ accesses) (hid : row.id = access.id) :
    row = { access with status := status } :=
  h.eq_of_id hrow hheld.2 hid

theorem Table.lt_of_held (h : Table m accesses nextId backend)
    (hheld : Held accesses access status) : access.id < nextId :=
  (h.below _ hheld.2).2

theorem Table.unowned_of_status (h : Table m accesses nextId backend)
    (hstatus : ∀ access ∈ accesses, access.id = id → m.mayHold access.status = false) :
    Unowned m accesses backend id := by
  intro artefact hartefact
  obtain ⟨row, hrow, heq, hholds⟩ := h.bound artefact hartefact
  refine ⟨row, hrow, fun hid => ?_, heq, hholds⟩
  have hnot := hstatus row hrow hid
  rw [hholds.2] at hnot
  cases hnot

theorem Table.unowned_hysteria2 (h : Table .hysteria2 accesses nextId backend) (id : ℕ) :
    Unowned .hysteria2 accesses backend id :=
  h.unowned_of_status fun _ _ _ => rfl

theorem Table.unowned_removed {s : ModuleState} (h : Table m s.accesses s.nextId s.backend)
    (hheld : Held s.accesses access status) :
    Unowned m s.accesses (m.removed access s) access.id := by
  have hfiltered : Unowned m s.accesses
      (s.backend.filter fun artefact => artefact ≠ access.artefact) access.id := by
    intro artefact hartefact
    obtain ⟨hmem, hne⟩ := List.mem_filter.1 hartefact
    obtain ⟨row, hrow, heq, hholds⟩ := h.bound artefact hmem
    refine ⟨row, hrow, fun hid => ?_, heq, hholds⟩
    rw [h.eq_held hheld hrow hid] at heq
    exact of_decide_eq_true hne heq.symm
  cases m with
  | hysteria2 => exact h.unowned_hysteria2 access.id
  | xray | awg | socks5 => exact hfiltered
  | mtproto managed =>
    intro artefact hartefact
    obtain ⟨row, hrow, rfl⟩ := List.mem_map.1 hartefact
    obtain ⟨hmem, hcond⟩ := List.mem_filter.1 hrow
    simp only [Bool.and_eq_true, decide_eq_true_eq] at hcond
    obtain ⟨⟨hactive, hmanaged⟩, hid⟩ := hcond
    exact ⟨row, hmem, hid, rfl, hmanaged, by rw [hactive]; rfl⟩

theorem Table.withBackend (h : Table m accesses nextId backend) {backend' : List Text}
    (hbound : ∀ artefact ∈ backend', ∃ access ∈ accesses, access.artefact = artefact ∧
      Holds m access) : Table m accesses nextId backend' :=
  ⟨h.pos, h.sorted, h.below, h.present, h.managed, hbound⟩

theorem Table.of_unowned (h : Table m accesses nextId backend) {backend' : List Text}
    (hunowned : Unowned m accesses backend' id) : Table m accesses nextId backend' :=
  h.withBackend fun artefact hartefact =>
    have ⟨row, hrow, _, hrest⟩ := hunowned artefact hartefact
    ⟨row, hrow, hrest⟩

theorem Table.applied {s : ModuleState} (h : Table m s.accesses s.nextId s.backend)
    (hheld : Held s.accesses access .pendingApply) :
    Table m s.accesses s.nextId (m.applied access s) := by
  have happend : m ≠ .hysteria2 → ∀ artefacts : List Text,
      (∀ artefact ∈ artefacts, ∃ access ∈ s.accesses, access.artefact = artefact ∧ Holds m access) →
      Table m s.accesses s.nextId (artefacts ++ [access.artefact]) := by
    intro hm artefacts hartefacts
    refine h.withBackend fun artefact hartefact => ?_
    rcases List.mem_append.1 hartefact with hold | hnew
    · exact hartefacts artefact hold
    · rw [List.mem_singleton.1 hnew]
      refine ⟨_, hheld.2, rfl, hheld.1, ?_⟩
      cases m with
      | hysteria2 => exact absurd rfl hm
      | socks5 | xray | awg | mtproto => rfl
  have hkept := h.unowned_removed hheld
  cases m with
  | hysteria2 => exact h
  | xray | awg | socks5 => exact happend (by simp) s.backend h.bound
  | mtproto managed =>
    exact happend (by simp) _ fun artefact hartefact =>
      have ⟨row, hrow, _, hrest⟩ := hkept artefact hartefact
      ⟨row, hrow, hrest⟩

/-! ### What is known while operations are under way -/

/-- What the operation in the lock knows. -/
def Place (m : ProtocolModule) (accesses : List Access) (nextId : ℕ) (backend : List Text) :
    OpPc → Prop
  | .issueRead _ _ | .issueInsert _ _ => True
  | .issueApply access | .issueFailed access | .issueActivate access | .issueCompensate access
  | .issueLock access | .issueCompensated access => Held accesses access .pendingApply
  | .revokeRead id deleting =>
    (m.marksLater = true → id < nextId ∧ ∀ access ∈ accesses, access.id = id → access.managed = true) ∧
      (deleting = true → m.marksLater = true)
  | .revokePending access deleting =>
    Held accesses access access.status ∧ m.revocable access.status = true ∧
      (deleting = true → m.marksLater = true)
  | .revokeRemove access deleting | .revokeRestore access deleting =>
    Held accesses access .pendingRevoke ∧ m.revocable access.status = true ∧
      (deleting = true → m.marksLater = true)
  | .revokeMark access deleting =>
    (∃ status, Held accesses access status ∧ status.isClosed = false) ∧
      (m ≠ .socks5 → Unowned m accesses backend access.id) ∧ (deleting = true → m.marksLater = true)
  | .deleteRead _ => m.marksLater = false
  | .deletePending access =>
    m.marksLater = false ∧ Held accesses access access.status ∧ access.status ≠ .deleted
  | .deleteRemove access | .deleteFailed access =>
    m.marksLater = false ∧ Held accesses access .pendingDelete
  | .deleteRow access =>
    m.marksLater = false ∧ (∃ status, Held accesses access status ∧ status ≠ .deleted) ∧
      Unowned m accesses backend access.id
  | .deleteMark id => m.marksLater = true ∧ id < nextId ∧ Closed accesses id

/-- The id that a delete is about. -/
def OpPc.target : OpPc → Option ℕ
  | .revokeRead id true | .deleteRead id | .deleteMark id => some id
  | .revokePending access true | .revokeRemove access true | .revokeRestore access true
  | .revokeMark access true | .deletePending access | .deleteRemove access | .deleteFailed access
  | .deleteRow access => some access.id
  | _ => none

/-- The id that the purger was called for. -/
def Purge.current : Purge → Option ℕ
  | .calling id _ _ _ | .marking id _ _ _ => some id
  | _ => none

/-- Each access is deleted, or its id is wanted. -/
def Covered (accesses : List Access) (wanted : ℕ → Prop) : Prop :=
  ∀ access ∈ accesses, access.status = .deleted ∨ wanted access.id

/-- What is left for the purge, as long as it has not failed. -/
def Purged (m : ProtocolModule) (accesses : List Access) (nextId : ℕ) (enabled : Bool) : Purge → Prop
  | .idle | .raised => True
  | .listing afterId ids =>
    afterId < nextId ∧ Covered accesses fun id => afterId < id ∨ id ∈ ids
  | .purging ids _ failed => failed = 0 → Covered accesses fun id => id ∈ ids
  | .calling id ids _ failed => failed = 0 → Covered accesses fun id' => id' = id ∨ id' ∈ ids
  | .marking id ids _ failed =>
    (m.marksLater = true ∧ id < nextId ∧ Closed accesses id) ∧
      (failed = 0 → Covered accesses fun id' => id' = id ∨ id' ∈ ids)
  | .returned _ failed => enabled = false ∧ (failed = 0 → Covered accesses fun _ => False)

/-- The invariant. -/
structure Inv (m : ProtocolModule) (s : ModuleState) : Prop where
  table : Table m s.accesses s.nextId s.backend
  place : ∀ op, s.holder = some op → Place m s.accesses s.nextId s.backend op.pc
  called : ∀ op, s.holder = some op → op.purge = true →
    ∃ id, op.pc.target = some id ∧ s.purge.current = some id
  deletes : ∀ id ∈ s.deletes, m.marksLater = true ∧ id < s.nextId ∧ Closed s.accesses id
  purge : Purged m s.accesses s.nextId s.enabled s.purge

/-! ### Changes of the table -/

theorem Fades.refl (m : ProtocolModule) (nextId : ℕ) (accesses : List Access) :
    Fades m nextId accesses accesses :=
  fun access haccess _ => ⟨access, haccess, rfl, rfl, id, fun _ => id⟩

theorem Fades.closed (h : Fades m nextId accesses accesses') (hm : m.marksLater = true)
    (hid : id < nextId) (hclosed : Closed accesses id) : Closed accesses' id := by
  intro access' haccess' hid'
  obtain ⟨access, haccess, heq, -, -, hstays⟩ := h access' haccess' (hid' ▸ hid)
  exact hstays hm (hclosed access haccess (heq.trans hid'))

theorem Fades.covered (h : Fades m nextId accesses accesses') {wanted : ℕ → Prop}
    (hbelow : ∀ access ∈ accesses', access.id < nextId) (hcovered : Covered accesses wanted) :
    Covered accesses' wanted := by
  intro access' haccess'
  obtain ⟨access, haccess, heq, -, hdeleted, -⟩ := h access' haccess' (hbelow access' haccess')
  exact (hcovered access haccess).imp hdeleted fun hwanted => heq ▸ hwanted

theorem Purged.fade {enabled : Bool} {purge : Purge} (h : Purged m accesses nextId enabled purge)
    (hfades : Fades m nextId accesses accesses') (hbelow : ∀ access ∈ accesses', access.id < nextId) :
    Purged m accesses' nextId enabled purge := by
  cases purge with
  | idle | raised => trivial
  | listing afterId ids => exact ⟨h.1, hfades.covered hbelow h.2⟩
  | purging ids deleted failed => exact fun hfailed => hfades.covered hbelow (h hfailed)
  | calling id ids deleted failed => exact fun hfailed => hfades.covered hbelow (h hfailed)
  | marking id ids deleted failed =>
    obtain ⟨⟨hm, hid, hclosed⟩, hcovered⟩ := h
    exact ⟨⟨hm, hid, hfades.closed hm hid hclosed⟩,
      fun hfailed => hfades.covered hbelow (hcovered hfailed)⟩
  | returned deleted failed => exact ⟨h.1, fun hfailed => hfades.covered hbelow (h.2 hfailed)⟩

/-- A step of an operation: it changes the table and the backend only. -/
structure Change (m : ProtocolModule) (s s' : ModuleState) : Prop where
  table : Table m s'.accesses s.nextId s'.backend
  fades : Fades m s.nextId s.accesses s'.accesses
  nextId : s'.nextId = s.nextId
  enabled : s'.enabled = s.enabled
  deletes : s'.deletes = s.deletes
  purge : s'.purge = s.purge

variable {s s' : ModuleState} {op : Operation} {pc : OpPc}

/-- The invariant of what is not in the lock. -/
theorem Change.outside (hc : Change m s s') (h : Inv m s) :
    (∀ id ∈ s'.deletes, m.marksLater = true ∧ id < s'.nextId ∧ Closed s'.accesses id) ∧
      Purged m s'.accesses s'.nextId s'.enabled s'.purge := by
  rw [hc.nextId, hc.enabled, hc.deletes, hc.purge]
  constructor
  · intro id hid
    obtain ⟨hm, hlt, hclosed⟩ := h.deletes id hid
    exact ⟨hm, hlt, hc.fades.closed hm hlt hclosed⟩
  · exact h.purge.fade hc.fades fun access haccess => (hc.table.below access haccess).2

/-- The operation goes on. -/
theorem Inv.goto (h : Inv m s) (hop : s.holder = some op) (hc : Change m s s')
    (hplace : Place m s'.accesses s'.nextId s'.backend pc) (htarget : pc.target = op.pc.target) :
    Inv m (s'.goto op pc) := by
  obtain ⟨hdeletes, hpurge⟩ := hc.outside h
  refine ⟨hc.nextId.symm ▸ hc.table, fun op' hop' => ?_, fun op' hop' hcalled => ?_, hdeletes, hpurge⟩
  · cases hop'
    exact hplace
  · cases hop'
    rw [show (s'.goto op pc).purge = s.purge from hc.purge, htarget]
    exact h.called op hop hcalled

/-- The purger has returned, with its access deleted, or has raised. -/
theorem Purged.counted {enabled ok : Bool} {purge : Purge}
    (h : Purged m accesses nextId enabled purge) (hcurrent : purge.current = some id)
    (hdone : ok = true → Gone accesses id) : Purged m accesses nextId enabled (purge.counted ok) := by
  have hcase : ∀ (ids : List ℕ) (deleted failed : ℕ),
      (failed = 0 → Covered accesses fun id' => id' = id ∨ id' ∈ ids) →
      Purged m accesses nextId enabled
        (if ok then .purging ids (deleted + 1) failed else .purging ids deleted (failed + 1)) := by
    intro ids deleted failed hcovered
    cases ok with
    | false => exact fun hfailed => absurd hfailed (Nat.succ_ne_zero failed)
    | true =>
      intro hfailed access haccess
      rcases hcovered hfailed access haccess with hdeleted | rfl | hmem
      · exact Or.inl hdeleted
      · exact Or.inl (hdone rfl access haccess rfl)
      · exact Or.inr hmem
  cases purge with
  | calling id' ids deleted failed =>
    cases hcurrent
    exact hcase ids deleted failed h
  | marking id' ids deleted failed =>
    cases hcurrent
    exact hcase ids deleted failed h.2
  | _ => cases hcurrent

theorem Inv.leave (h : Inv m s) (hc : Change m s s') : Inv m { s' with holder := none } := by
  obtain ⟨hdeletes, hpurge⟩ := hc.outside h
  exact ⟨hc.nextId.symm ▸ hc.table, fun _ hop => absurd hop.symm (Option.some_ne_none _),
    fun _ hop => absurd hop.symm (Option.some_ne_none _), hdeletes, hpurge⟩

/-- The purge has its call for the id outside the lock. -/
def CalledOutside (s : ModuleState) (id : ℕ) : Prop :=
  (∀ op, s.holder = some op → op.purge = false) ∧ s.purge.current = some id

theorem Inv.count (h : Inv m s) {purge ok : Bool}
    (hcalled : purge = true → ∃ id, CalledOutside s id ∧ (ok = true → Gone s.accesses id)) :
    Inv m (s.count purge ok) := by
  unfold ModuleState.count
  cases purge with
  | false => exact h
  | true =>
    obtain ⟨id, ⟨hother, hcurrent⟩, hdone⟩ := hcalled rfl
    refine ⟨h.table, h.place, fun op hop hpurge => ?_, h.deletes, h.purge.counted hcurrent hdone⟩
    rw [hother op hop] at hpurge
    cases hpurge

theorem Inv.awaitMark (h : Inv m s) (hm : m.marksLater = true) (hlt : id < s.nextId)
    (hclosed : Closed s.accesses id) {purge : Bool} (hcalled : purge = true → CalledOutside s id) :
    Inv m (s.awaitMark purge id) := by
  unfold ModuleState.awaitMark
  cases purge with
  | false =>
    refine ⟨h.table, h.place, h.called, fun id' hid' => ?_, h.purge⟩
    rcases List.mem_cons.1 hid' with rfl | hmem
    · exact ⟨hm, hlt, hclosed⟩
    · exact h.deletes id' hmem
  | true =>
    obtain ⟨hother, hcurrent⟩ := hcalled rfl
    refine ⟨h.table, h.place, fun op hop hpurge => ?_, h.deletes, ?_⟩
    · rw [hother op hop] at hpurge
      cases hpurge
    · have hpurge := h.purge
      show Purged m s.accesses s.nextId s.enabled s.purge.marked
      cases hs : s.purge with
      | calling id' ids deleted failed =>
        rw [hs] at hpurge hcurrent
        cases hcurrent
        exact ⟨⟨hm, hlt, hclosed⟩, hpurge⟩
      | _ =>
        rw [hs] at hpurge
        exact hpurge

theorem Inv.calledOutside (h : Inv m s) (hop : s.holder = some op) (hc : Change m s s')
    (hpurge : op.purge = true) :
    ∃ id, op.pc.target = some id ∧ CalledOutside { s' with holder := none } id := by
  obtain ⟨id, htarget, hcurrent⟩ := h.called op hop hpurge
  exact ⟨id, htarget, fun _ hop => absurd hop.symm (Option.some_ne_none _), hc.purge ▸ hcurrent⟩

/-- The operation ends. -/
theorem Inv.release (h : Inv m s) (hop : s.holder = some op) (hc : Change m s s') {ok : Bool}
    (hdone : ok = true → ∀ id, op.pc.target = some id → Gone s'.accesses id) :
    Inv m (s'.release op ok) := by
  refine (h.leave hc).count fun hpurge => ?_
  obtain ⟨id, htarget, hcalled⟩ := h.calledOutside hop hc hpurge
  exact ⟨id, hcalled, fun hok => hdone hok id htarget⟩

/-- The first half of a delete ends. -/
theorem Inv.leaveMarking (h : Inv m s) (hop : s.holder = some op) (hc : Change m s s')
    (hm : m.marksLater = true) (htarget : op.pc.target = some id) (hlt : id < s.nextId)
    (hclosed : Closed s'.accesses id) : Inv m ({ s' with holder := none }.awaitMark op.purge id) := by
  refine (h.leave hc).awaitMark hm (hc.nextId ▸ hlt) hclosed fun hpurge => ?_
  obtain ⟨id', htarget', hcalled⟩ := h.calledOutside hop hc hpurge
  cases htarget.symm.trans htarget'
  exact hcalled

/-! ### The writes -/

theorem Inv.same (h : Inv m s) : Change m s s :=
  ⟨h.table, Fades.refl m s.nextId s.accesses, rfl, rfl, rfl, rfl⟩

theorem Table.change (h : Table m s.accesses s.nextId backend) :
    Change m s { s with backend := backend } :=
  ⟨h, Fades.refl m s.nextId s.accesses, rfl, rfl, rfl, rfl⟩

theorem Inv.holds_or_unowned (h : Inv m s) (hmay : status.accessMayExist = true) (id : ℕ) :
    m.mayHold status = true ∨ Unowned m s.accesses s.backend id := by
  cases m with
  | xray | awg | mtproto => exact Or.inl hmay
  | hysteria2 => exact Or.inr (h.table.unowned_hysteria2 id)
  | socks5 => exact Or.inl (decide_eq_true fun hdeleted => by rw [hdeleted] at hmay; cases hmay)

/-- The status of the row with an id is changed. -/
def ModuleState.writeStatus (id : ℕ) (g : Access → AccessStatus) (s : ModuleState) : ModuleState :=
  { s with
    accesses := updateRow Access.id id (fun access => { access with status := g access }) s.accesses }

theorem Inv.writeStatus (h : Inv m s) {g : Access → AccessStatus}
    (hpresent : m.softDeletes = false → ∀ access ∈ s.accesses, access.id = id → g access ≠ .deleted)
    (hfades : ∀ access ∈ s.accesses, access.id = id →
      (access.status = .deleted → g access = .deleted) ∧
      (m.marksLater = true → access.status.isClosed = true → (g access).isClosed = true))
    (hmay : (∀ access ∈ s.accesses, access.id = id → m.mayHold access.status = true →
        m.mayHold (g access) = true) ∨ Unowned m s.accesses s.backend id) :
    Change m s (s.writeStatus id g) := by
  have hids : (s.writeStatus id g).accesses.map Access.id = s.accesses.map Access.id :=
    keys_updateRow fun _ => rfl
  refine ⟨⟨h.table.pos, ?_, fun row hrow => ?_, fun hm row hrow => ?_, fun hm row hrow => ?_,
    fun artefact hartefact => ?_⟩, fun row hrow _ => ?_, rfl, rfl, rfl, rfl⟩
  · have hsorted := List.pairwise_map.2 h.table.sorted
    rw [← hids] at hsorted
    exact List.pairwise_map.1 hsorted
  · obtain ⟨old, hold, ⟨-, rfl⟩ | ⟨-, rfl⟩⟩ := exists_of_mem_updateRow hrow
    · exact h.table.below row hold
    · exact h.table.below old hold
  · obtain ⟨old, hold, ⟨-, rfl⟩ | ⟨hid, rfl⟩⟩ := exists_of_mem_updateRow hrow
    · exact h.table.present hm row hold
    · exact hpresent hm old hold hid
  · obtain ⟨old, hold, ⟨-, rfl⟩ | ⟨-, rfl⟩⟩ := exists_of_mem_updateRow hrow
    · exact h.table.managed hm row hold
    · exact h.table.managed hm old hold
  · rcases hmay with hmay | hunowned
    · obtain ⟨row, hrow, heq, hmanaged, hholds⟩ := h.table.bound artefact hartefact
      by_cases hid : row.id = id
      · subst hid
        exact ⟨_, mem_updateRow_self hrow, heq, hmanaged, hmay row hrow rfl hholds⟩
      · exact ⟨row, mem_updateRow_of_ne hrow hid, heq, hmanaged, hholds⟩
    · obtain ⟨row, hrow, hid, hrest⟩ := hunowned artefact hartefact
      exact ⟨row, mem_updateRow_of_ne hrow hid, hrest⟩
  · obtain ⟨old, hold, ⟨-, rfl⟩ | ⟨hid, rfl⟩⟩ := exists_of_mem_updateRow hrow
    · exact ⟨row, hold, rfl, rfl, fun hdeleted => hdeleted, fun _ hclosed => hclosed⟩
    · exact ⟨old, hold, rfl, rfl, hfades old hold hid⟩

theorem Inv.setStatus (h : Inv m s) {old new : AccessStatus} (hheld : Held s.accesses access old)
    (hold : old ≠ .deleted) (hopen : m.marksLater = true → old.isClosed = true → new.isClosed = true)
    (hnew : m.softDeletes = false → new ≠ .deleted)
    (hmay : m.mayHold new = true ∨ Unowned m s.accesses s.backend access.id) :
    Change m s (s.setStatus access.id new) := by
  refine h.writeStatus (g := fun _ => new) (fun hm _ _ _ => hnew hm) (fun row hrow hid => ?_)
    (hmay.imp_left fun hmay _ _ _ _ => hmay)
  rw [h.table.eq_held hheld hrow hid]
  exact ⟨fun hdeleted => absurd hdeleted hold, hopen⟩

theorem Inv.setOpen (h : Inv m s) {old new : AccessStatus} (hheld : Held s.accesses access old)
    (hopen : old.isClosed = false) (hmay : new.accessMayExist = true) :
    Change m s (s.setStatus access.id new) := by
  refine h.setStatus hheld ?_ (fun _ hclosed => ?_) (fun _ => ?_) (h.holds_or_unowned hmay _)
  · rintro rfl
    cases hopen
  · rw [hopen] at hclosed
    cases hclosed
  · rintro rfl
    cases hmay

theorem Inv.markActive (h : Inv m s) (id : ℕ) : Change m s (s.markActive id) := by
  have hwrite : s.markActive id = s.writeStatus id fun access =>
      if access.status = .pendingApply ∨ access.status = .applyFailed then .active
      else access.status := by
    unfold ModuleState.markActive ModuleState.writeStatus
    congr 2
    funext access
    dsimp only
    split_ifs <;> rfl
  rw [hwrite]
  refine h.writeStatus (fun hm row hrow _ => ?_) (fun row _ _ => ?_) (Or.inl fun row _ _ hmay => ?_)
  · split_ifs
    · nofun
    · exact h.table.present hm row hrow
  · constructor
    · intro hdeleted
      rw [hdeleted, if_neg (by nofun)]
    · intro _ hclosed
      rw [if_neg (by rintro (hstatus | hstatus) <;> rw [hstatus] at hclosed <;> cases hclosed)]
      exact hclosed
  · split_ifs
    · cases m with
      | hysteria2 => exact hmay
      | xray | awg | socks5 | mtproto => rfl
    · exact hmay

theorem Inv.hardDelete (h : Inv m s) (hunowned : Unowned m s.accesses s.backend id) :
    Change m s (s.hardDelete id) := by
  refine ⟨⟨h.table.pos, h.table.sorted.filter _, fun row hrow => h.table.below row (List.mem_of_mem_filter hrow),
    fun hm row hrow => h.table.present hm row (List.mem_of_mem_filter hrow),
    fun hm row hrow => h.table.managed hm row (List.mem_of_mem_filter hrow),
    fun artefact hartefact => ?_⟩, fun row hrow _ => ?_, rfl, rfl, rfl, rfl⟩
  · obtain ⟨row, hrow, hid, hrest⟩ := hunowned artefact hartefact
    exact ⟨row, List.mem_filter.2 ⟨hrow, decide_eq_true hid⟩, hrest⟩
  · exact ⟨row, List.mem_of_mem_filter hrow, rfl, rfl, fun hdeleted => hdeleted,
      fun _ hclosed => hclosed⟩

theorem gone_hardDelete (s : ModuleState) (id : ℕ) : Gone (s.hardDelete id).accesses id := by
  intro row hrow hid
  exact absurd hid (of_decide_eq_true (List.mem_filter.1 hrow).2)

theorem status_of_setStatus {row : Access} (hrow : row ∈ (s.setStatus id status).accesses)
    (hid : row.id = id) : row.status = status := by
  obtain ⟨old, -, ⟨hne, rfl⟩ | ⟨-, rfl⟩⟩ := exists_of_mem_updateRow hrow
  · exact absurd hid hne
  · rfl

theorem held_setStatus {old : AccessStatus} (hheld : Held s.accesses access old) :
    Held (s.setStatus access.id status).accesses access status :=
  have hmem := mem_updateRow_self (k := Access.id)
    (f := fun access => { access with status := status }) hheld.2
  ⟨hheld.1, hmem⟩

/-- An update that found its row. -/
theorem mark_eq_some {blocked : AccessStatus → Bool} (hmark : s.mark blocked status id = some s') :
    ∃ access ∈ s.accesses, access.id = id ∧ blocked access.status = false ∧
      s' = s.setStatus id status := by
  unfold ModuleState.mark at hmark
  cases hfind : s.getById id with
  | none =>
    rw [hfind] at hmark
    cases hmark
  | some access =>
    rw [hfind] at hmark
    dsimp only at hmark
    split_ifs at hmark with hblocked
    cases hmark
    have hid : access.id = id := by simpa using List.find?_some hfind
    rw [Bool.not_eq_true] at hblocked
    exact ⟨access, List.mem_of_find?_eq_some hfind, hid, hblocked, rfl⟩

/-! ### The steps -/

theorem mem_of_getById (h : s.getById id = some access) : access ∈ s.accesses ∧ access.id = id :=
  ⟨List.mem_of_find?_eq_some h, by simpa using List.find?_some h⟩

theorem open_of_revocable (h : m.revocable status = true) :
    status.isClosed = false ∧ status ≠ .deleted := by
  cases m <;> cases status <;> first | exact ⟨rfl, nofun⟩ | cases h

theorem Unowned.setStatus (h : Unowned m s.accesses backend id) :
    Unowned m (s.setStatus id status).accesses backend id := by
  intro artefact hartefact
  obtain ⟨other, hother, hne, hrest⟩ := h artefact hartefact
  exact ⟨other, mem_updateRow_of_ne hother hne, hne, hrest⟩

/-- A row that a module with one delete reads under the lock. -/
theorem Table.held_of_mem (h : Table m accesses nextId backend) (hm : m.marksLater = false)
    (haccess : access ∈ accesses) : Held accesses access access.status :=
  ⟨h.managed hm access haccess, haccess⟩

theorem Inv.insert (h : Inv m s) (access : Access) (hlisted : s.purge.listed = false)
    (hid : access.id = s.nextId) (hstatus : access.status ≠ .deleted) (hmanaged : m.marksLater = false → access.managed = true) :
    Table m (s.insert access).accesses (s.insert access).nextId s.backend ∧
      Fades m s.nextId s.accesses (s.insert access).accesses ∧
      Purged m (s.insert access).accesses (s.insert access).nextId s.enabled s.purge := by
  have hcases : ∀ row ∈ s.accesses ++ [access], row ∈ s.accesses ∨ row = access :=
    fun row hrow => (List.mem_append.1 hrow).imp_right List.mem_singleton.1
  refine ⟨⟨Nat.succ_pos _, ?_, fun row hrow => ?_, fun hm row hrow => ?_, fun hm row hrow => ?_,
    fun artefact hartefact => ?_⟩, fun row hrow hlt => ?_, ?_⟩
  · refine List.pairwise_append.2 ⟨h.table.sorted, List.pairwise_singleton _ _, ?_⟩
    intro row hrow row' hrow'
    rw [List.mem_singleton.1 hrow', hid]
    exact (h.table.below row hrow).2
  · rcases hcases row hrow with hold | rfl
    · obtain ⟨hpos, hlt⟩ := h.table.below row hold
      exact ⟨hpos, hlt.trans (Nat.lt_succ_self _)⟩
    · rw [hid]
      exact ⟨h.table.pos, Nat.lt_succ_self _⟩
  · rcases hcases row hrow with hold | rfl
    · exact h.table.present hm row hold
    · exact hstatus
  · rcases hcases row hrow with hold | rfl
    · exact h.table.managed hm row hold
    · exact hmanaged hm
  · obtain ⟨row, hrow, hrest⟩ := h.table.bound artefact hartefact
    exact ⟨row, List.mem_append_left _ hrow, hrest⟩
  · rcases hcases row hrow with hold | rfl
    · exact Fades.refl m s.nextId s.accesses row hold hlt
    · exact absurd (hid ▸ hlt) (lt_irrefl _)
  · have hpurge := h.purge
    cases hs : s.purge with
    | idle | raised => trivial
    | listing afterId ids =>
      rw [hs] at hpurge
      refine ⟨hpurge.1.trans (Nat.lt_succ_self _), fun row hrow => ?_⟩
      rcases hcases row hrow with hold | rfl
      · exact hpurge.2 row hold
      · exact Or.inr (Or.inl (hid ▸ hpurge.1))
    | _ =>
      rw [hs] at hlisted
      cases hlisted

theorem Inv.issueInsert (h : Inv m s) {owner : ℕ} {artefact : Text} {purge : Bool}
    (hop : s.holder = some ⟨.issueInsert owner artefact, purge⟩) (hlisted : s.purge.listed = false) :
    Inv m (m.advance s ⟨.issueInsert owner artefact, purge⟩) := by
  have hnew : ∀ pc, pc.target = none →
      Place m (s.accesses ++ [⟨s.nextId, owner, .pendingApply, artefact, true⟩]) (s.nextId + 1) s.backend
        pc →
      Inv m ((s.insert ⟨s.nextId, owner, .pendingApply, artefact, true⟩).goto
        ⟨.issueInsert owner artefact, purge⟩ pc) := by
    intro pc htarget hplace
    obtain ⟨htable, hfades, hpurge⟩ := h.insert ⟨s.nextId, owner, .pendingApply, artefact, true⟩
      hlisted rfl nofun fun _ => rfl
    refine ⟨htable, fun op hop' => ?_, fun op hop' hcalled => ?_, fun id hid => ?_, hpurge⟩
    · cases hop'
      exact hplace
    · cases hop'
      obtain ⟨id, hid, -⟩ := h.called _ hop hcalled
      cases hid
    · obtain ⟨hm, hlt, hclosed⟩ := h.deletes id hid
      exact ⟨hm, hlt.trans (Nat.lt_succ_self _), hfades.closed hm hlt hclosed⟩
  have hheld : Held (s.accesses ++ [⟨s.nextId, owner, .pendingApply, artefact, true⟩])
      ⟨s.nextId, owner, .pendingApply, artefact, true⟩ .pendingApply :=
    ⟨rfl, List.mem_append_right _ (List.mem_singleton.2 rfl)⟩
  cases m with
  | hysteria2 => exact hnew (.issueActivate _) rfl hheld
  | xray | awg | socks5 | mtproto => exact hnew (.issueApply _) rfl hheld

/-- **A call that returns keeps the invariant.** -/
theorem Inv.advance (h : Inv m s) (hop : s.holder = some op)
    (hintime : inserts s .returns = true → s.purge.listed = false) : Inv m (m.advance s op) := by
  obtain ⟨pc, purge⟩ := op
  have hplace := h.place _ hop
  have htable := h.table
  cases pc with
  | issueRead owner artefacts =>
    cases artefacts with
    | nil => exact h.release hop h.same nofun
    | cons artefact rest =>
      unfold ProtocolModule.advance
      dsimp only
      split
      · exact h.release hop h.same nofun
      · exact h.release hop h.same nofun
      · split_ifs
        · exact h.goto hop h.same trivial rfl
        · exact h.goto hop h.same trivial rfl
  | issueInsert owner artefact =>
    -- the one write that needs the schedule: the purge has not listed the keys yet
    refine h.issueInsert hop (hintime ?_)
    rw [inserts, hop]
  | issueApply access =>
    have happlied : Inv m ({ s with backend := m.applied access s }.goto ⟨.issueApply access, purge⟩
        (.issueActivate access)) := h.goto hop (htable.applied hplace).change hplace rfl
    have hfailed : Inv m (s.goto ⟨.issueApply access, purge⟩ (.issueFailed access)) :=
      h.goto hop h.same hplace rfl
    cases m with
    | mtproto managed => exact happlied
    | xray | awg | socks5 | hysteria2 =>
      unfold ProtocolModule.advance
      dsimp only
      split_ifs
      · exact hfailed
      · exact happlied
  | issueFailed access | issueCompensated access =>
    exact h.release hop (h.setOpen hplace rfl rfl) nofun
  | issueActivate access => exact h.release hop (h.markActive access.id) nofun
  | issueCompensate access =>
    have hremoved := htable.of_unowned (htable.unowned_removed hplace)
    exact h.goto hop hremoved.change hplace rfl
  | issueLock access => exact h.goto hop h.same hplace rfl
  | revokeRead id deleting =>
    obtain ⟨hmanaged, hdeleting⟩ := hplace
    unfold ProtocolModule.advance
    dsimp only
    cases hfind : s.getById id with
    | none => exact h.release hop h.same nofun
    | some access =>
      obtain ⟨hmem, rfl⟩ := mem_of_getById hfind
      have hheld : Held s.accesses access access.status := by
        cases hm : m.marksLater with
        | false => exact htable.held_of_mem hm hmem
        | true => exact ⟨(hmanaged hm).2 access hmem rfl, hmem⟩
      dsimp only
      -- a key that is revoked or gone is left alone, or only marked as deleted
      by_cases hrevocable : m.revocable access.status = true
      · rw [if_pos hrevocable]
        have hopen := (open_of_revocable hrevocable).1
        cases m with
        | hysteria2 =>
          refine h.goto hop h.same ⟨⟨_, hheld, hopen⟩, fun _ => htable.unowned_hysteria2 _, hdeleting⟩ ?_
          cases deleting <;> rfl
        | xray | awg | socks5 | mtproto =>
          refine h.goto hop h.same ⟨hheld, hrevocable, hdeleting⟩ ?_
          cases deleting <;> rfl
      · rw [if_neg hrevocable]
        by_cases hmark : (deleting && decide (access.status ≠ .deleted)) = true
        · rw [if_pos hmark]
          rw [Bool.and_eq_true] at hmark
          obtain ⟨rfl, -⟩ := hmark
          have hm := hdeleting rfl
          refine h.leaveMarking hop h.same hm rfl (htable.below access hmem).2 fun row hrow hid => ?_
          rw [htable.eq_of_id hrow hmem hid]
          cases m with
          | mtproto managed => simpa [ProtocolModule.revocable] using hrevocable
          | _ => cases hm
        · rw [if_neg hmark]
          refine h.release hop h.same fun _ id' htarget row hrow hid => ?_
          cases deleting with
          | false => cases htarget
          | true =>
            cases htarget
            rw [htable.eq_of_id hrow hmem hid]
            simpa using hmark
  | revokePending access deleting =>
    obtain ⟨hheld, hrevocable, hdeleting⟩ := hplace
    have hchange : Change m s (s.setStatus access.id .pendingRevoke) :=
      h.setOpen hheld (open_of_revocable hrevocable).1 rfl
    refine h.goto hop hchange ⟨held_setStatus hheld, hrevocable, hdeleting⟩ ?_
    cases deleting <;> rfl
  | revokeRemove access deleting =>
    obtain ⟨hheld, -, hdeleting⟩ := hplace
    have htarget : (OpPc.revokeMark access deleting).target =
        (OpPc.revokeRemove access deleting).target := by cases deleting <;> rfl
    have hunowned := htable.unowned_removed hheld
    have hchange := (htable.of_unowned hunowned).change
    cases m with
    | socks5 =>
      exact h.goto hop h.same ⟨⟨_, hheld, rfl⟩, fun hne => absurd rfl hne, hdeleting⟩ htarget
    | xray | awg | hysteria2 | mtproto =>
      exact h.goto hop hchange ⟨⟨_, hheld, rfl⟩, fun _ => hunowned, hdeleting⟩ htarget
  | revokeRestore access deleting =>
    obtain ⟨hheld, hrevocable, -⟩ := hplace
    have hrestored : Change m s (s.setStatus access.id (m.restored access)) → Inv m
        (m.advance s ⟨.revokeRestore access deleting, purge⟩) := fun hchange => h.release hop hchange nofun
    refine hrestored ?_
    cases m with
    | mtproto managed => exact h.setOpen hheld rfl rfl
    | xray | awg => exact h.setOpen hheld rfl hrevocable
    | hysteria2 =>
      refine h.setOpen hheld rfl ?_
      show access.status.accessMayExist = true
      revert hrevocable
      cases access.status <;> first | exact fun _ => rfl | nofun
    | socks5 =>
      exact h.setStatus hheld nofun (fun _ hclosed => by cases hclosed) (fun hhard => by cases hhard)
        (Or.inl (decide_eq_true (open_of_revocable hrevocable).2))
  | revokeMark access deleting =>
    obtain ⟨⟨status, hheld, hopen⟩, hunowned, hdeleting⟩ := hplace
    have hmay : m.mayHold .revoked = true ∨ Unowned m s.accesses s.backend access.id := by
      cases m with
      | socks5 => exact Or.inl rfl
      | xray | awg | hysteria2 | mtproto => exact Or.inr (hunowned nofun)
    have hchange : Change m s (s.setStatus access.id .revoked) :=
      h.setStatus hheld (by rintro rfl; cases hopen) (fun _ _ => rfl) (fun _ => nofun) hmay
    unfold ProtocolModule.advance
    dsimp only
    cases hmark : s.markRevoked access.id with
    | none => exact h.release hop h.same nofun
    | some s' =>
      obtain ⟨-, -, -, -, rfl⟩ := mark_eq_some hmark
      dsimp only
      unfold ModuleState.endRevoke
      cases deleting with
      | false => exact h.release hop hchange nofun
      | true =>
        refine h.leaveMarking hop hchange (hdeleting rfl) rfl (htable.lt_of_held hheld) ?_
        intro row hrow hid
        rw [status_of_setStatus hrow hid]
        rfl
  | deleteRead id =>
    unfold ProtocolModule.advance
    dsimp only
    cases hfind : s.getById id with
    | none => exact h.release hop h.same nofun
    | some access =>
      obtain ⟨hmem, rfl⟩ := mem_of_getById hfind
      have hheld := htable.held_of_mem hplace hmem
      cases m with
      | hysteria2 =>
        exact h.goto hop h.same
          ⟨rfl, ⟨_, hheld, htable.present rfl access hmem⟩, htable.unowned_hysteria2 _⟩ rfl
      | xray | awg => exact h.goto hop h.same ⟨rfl, hheld, htable.present rfl access hmem⟩ rfl
      | mtproto managed => cases hplace
      | socks5 =>
        dsimp only
        split_ifs with hdeleted
        · refine h.release hop h.same fun _ id' htarget row hrow hid => ?_
          cases htarget
          rw [htable.eq_of_id hrow hmem hid]
          exact hdeleted
        · exact h.goto hop h.same ⟨rfl, hheld, hdeleted⟩ rfl
  | deletePending access =>
    obtain ⟨hm, hheld, hne⟩ := hplace
    have hchange : Change m s (s.setStatus access.id .pendingDelete) :=
      h.setStatus hheld hne (fun hm' => by rw [hm] at hm'; cases hm') (fun _ => nofun)
        (h.holds_or_unowned rfl _)
    unfold ProtocolModule.advance
    dsimp only
    -- a key whose access cannot exist is not removed from the backend
    split_ifs with hremove
    · exact h.goto hop hchange ⟨hm, held_setStatus hheld⟩ rfl
    · have hunowned : Unowned m s.accesses s.backend access.id := by
        refine htable.unowned_of_status fun row hrow hid => ?_
        rw [htable.eq_held hheld hrow hid]
        rw [Bool.or_eq_true, not_or, Bool.not_eq_true, Bool.not_eq_true] at hremove
        cases m with
        | xray | awg => exact hremove.2
        | hysteria2 => rfl
        | socks5 | mtproto => cases hremove.1
      exact h.goto hop hchange ⟨hm, ⟨_, held_setStatus hheld, nofun⟩, hunowned.setStatus⟩ rfl
  | deleteRemove access =>
    obtain ⟨hm, hheld⟩ := hplace
    have hunowned := htable.unowned_removed hheld
    exact h.goto hop (htable.of_unowned hunowned).change
      ⟨hm, ⟨_, hheld, nofun⟩, hunowned⟩ rfl
  | deleteFailed access => exact h.release hop (h.setOpen hplace.2 rfl rfl) nofun
  | deleteRow access =>
    obtain ⟨hm, ⟨status, hheld, hne⟩, hunowned⟩ := hplace
    unfold ProtocolModule.advance
    dsimp only
    -- the proxies keep their rows, the keys lose them
    split_ifs with hsoft
    · have hchange : Change m s (s.setStatus access.id .deleted) :=
        h.setStatus hheld hne (fun _ _ => rfl) (fun hhard => by rw [hsoft] at hhard; cases hhard)
          (Or.inr hunowned)
      cases hmark : s.markDeleted access.id with
      | none => exact h.release hop h.same nofun
      | some s' =>
        obtain ⟨-, -, -, -, rfl⟩ := mark_eq_some hmark
        refine h.release hop hchange fun _ id htarget row hrow hid => ?_
        cases htarget
        exact status_of_setStatus hrow hid
    · refine h.release hop (h.hardDelete hunowned) fun _ id htarget => ?_
      cases htarget
      exact gone_hardDelete s access.id
  | deleteMark id =>
    obtain ⟨hm, hlt, hclosed⟩ := hplace
    have hchange : Change m s (s.setStatus id .deleted) := by
      cases m with
      | mtproto managed =>
        refine h.writeStatus (g := fun _ => .deleted) nofun (fun _ _ _ => ⟨fun _ => rfl, fun _ _ => rfl⟩)
          (Or.inr (htable.unowned_of_status fun row hrow hid => ?_))
        have hrowClosed := hclosed row hrow hid
        revert hrowClosed
        cases row.status <;> first | exact fun _ => rfl | nofun
      | _ => cases hm
    unfold ProtocolModule.advance
    dsimp only
    cases hmark : s.markDeleted id with
    | none => exact h.release hop h.same nofun
    | some s' =>
      obtain ⟨-, -, -, -, rfl⟩ := mark_eq_some hmark
      refine h.release hop hchange fun _ id' htarget row hrow hid => ?_
      cases htarget
      exact status_of_setStatus hrow hid

theorem Place.raised {backend' : List Text} {pc' : OpPc} (h : Place m accesses nextId backend pc)
    (hraised : m.raised pc = some pc') :
    Place m accesses nextId backend' pc' ∧ pc'.target = pc.target := by
  cases pc with
  | issueApply access =>
    cases hraised
    exact ⟨h, rfl⟩
  | issueActivate access | issueCompensate access => cases m <;> cases hraised <;> exact ⟨h, rfl⟩
  | revokeRemove access deleting =>
    cases hraised
    exact ⟨h, by cases deleting <;> rfl⟩
  | deleteRemove access =>
    cases hraised
    exact ⟨h, rfl⟩
  | _ => cases hraised

theorem Inv.table_backendAfter (h : Inv m s) (hop : s.holder = some op) :
    Table m s.accesses s.nextId (m.backendAfter s op.pc) := by
  have hplace := h.place op hop
  have hremoved : ∀ {access status}, Held s.accesses access status →
      Table m s.accesses s.nextId (m.removed access s) :=
    fun hheld => h.table.of_unowned (h.table.unowned_removed hheld)
  cases hpc : op.pc with
  | issueApply access =>
    rw [hpc] at hplace
    exact h.table.applied hplace
  | issueCompensate access =>
    rw [hpc] at hplace
    exact hremoved hplace
  | deleteRemove access =>
    rw [hpc] at hplace
    exact hremoved hplace.2
  | revokeRemove access deleting =>
    rw [hpc] at hplace
    cases m with
    | socks5 => exact h.table
    | xray | awg | hysteria2 | mtproto => exact hremoved hplace.1
  | _ => exact h.table

/-- A call that raises keeps the invariant. -/
theorem Inv.fail (h : Inv m s) (hop : s.holder = some op) (done : Bool) :
    Inv m (m.fail s op done) := by
  have hgoto : ∀ s', Change m s s' → s'.accesses = s.accesses → ∀ pc, m.raised op.pc = some pc →
      Inv m (s'.goto op pc) := by
    intro s' hchange hsame pc hraised
    have hplace := h.place op hop
    rw [← hchange.nextId, ← hsame] at hplace
    have hnext : Place m s'.accesses s'.nextId s'.backend pc ∧ pc.target = op.pc.target :=
      hplace.raised hraised
    exact h.goto hop hchange hnext.1 hnext.2
  have hrelease : ∀ s', Change m s s' → Inv m (s'.release op false) := fun s' hchange =>
    h.release hop hchange fun hok => by cases hok
  have hafter := (h.table_backendAfter hop).change
  unfold ProtocolModule.fail
  cases hraised : m.raised op.pc with
  | none => cases done <;> first | exact hrelease s h.same | exact hrelease _ hafter
  | some pc => cases done <;> first | exact hgoto s h.same rfl pc hraised | exact hgoto _ hafter rfl pc hraised

/-! ### The steps outside the lock -/

theorem Inv.enter (h : Inv m s) (hstep : s.enter op = some s')
    (hplace : Place m s.accesses s.nextId s.backend op.pc)
    (hcalled : op.purge = true → ∃ id, op.pc.target = some id ∧ s.purge.current = some id) :
    Inv m s' := by
  unfold ModuleState.enter at hstep
  cases hholder : s.holder with
  | some _ =>
    rw [hholder] at hstep
    cases hstep
  | none =>
    rw [hholder] at hstep
    cases hstep
    refine ⟨h.table, fun op' hop' => ?_, fun op' hop' => ?_, h.deletes, h.purge⟩
    · cases hop'
      exact hplace
    · cases hop'
      exact hcalled

theorem Place.mono {nextId' : ℕ} (h : Place m accesses nextId backend pc)
    (hkeep : ∀ access ∈ accesses, access.managed = true → access ∈ accesses')
    (hfades : Fades m nextId accesses accesses') (hle : nextId ≤ nextId') :
    Place m accesses' nextId' backend pc := by
  have hheld : ∀ {access status}, Held accesses access status → Held accesses' access status :=
    fun hheld => ⟨hheld.1, hkeep _ hheld.2 hheld.1⟩
  have hunowned : ∀ {id}, Unowned m accesses backend id → Unowned m accesses' backend id := by
    intro id hunowned artefact hartefact
    obtain ⟨other, hother, hne, heq, hholds⟩ := hunowned artefact hartefact
    exact ⟨other, hkeep other hother hholds.1, hne, heq, hholds⟩
  cases pc with
  | issueRead | issueInsert => trivial
  | issueApply | issueFailed | issueActivate | issueCompensate | issueLock | issueCompensated =>
    exact hheld h
  | revokeRead id deleting =>
    refine ⟨fun hm => ⟨(h.1 hm).1.trans_le hle, fun row' hrow' hid => ?_⟩, h.2⟩
    obtain ⟨row, hrow, heq, hmanaged, -⟩ := hfades row' hrow' (hid ▸ (h.1 hm).1)
    rw [← hmanaged]
    exact (h.1 hm).2 row hrow (heq.trans hid)
  | revokePending | revokeRemove | revokeRestore => exact ⟨hheld h.1, h.2⟩
  | revokeMark access deleting =>
    obtain ⟨⟨status, hrow, hopen⟩, hother, hdeleting⟩ := h
    exact ⟨⟨status, hheld hrow, hopen⟩, fun hne => hunowned (hother hne), hdeleting⟩
  | deleteRead => exact h
  | deletePending => exact ⟨h.1, hheld h.2.1, h.2.2⟩
  | deleteRemove | deleteFailed => exact ⟨h.1, hheld h.2⟩
  | deleteRow access =>
    obtain ⟨hm, ⟨status, hrow, hne⟩, hother⟩ := h
    exact ⟨hm, ⟨status, hheld hrow, hne⟩, hunowned hother⟩
  | deleteMark id => exact ⟨h.1, h.2.1.trans_le hle, hfades.closed h.1 h.2.1 h.2.2⟩

theorem Inv.beside (h : Inv m s) (htable : Table m s'.accesses s'.nextId s'.backend)
    (hkeep : ∀ access ∈ s.accesses, access.managed = true → access ∈ s'.accesses)
    (hfades : Fades m s.nextId s.accesses s'.accesses) (hle : s.nextId ≤ s'.nextId)
    (hpurged : Purged m s'.accesses s'.nextId s'.enabled s'.purge) (hbackend : s'.backend = s.backend)
    (hholder : s'.holder = s.holder) (hdeletes : s'.deletes = s.deletes)
    (hpurge : s'.purge = s.purge) : Inv m s' := by
  refine ⟨htable, fun op hop => ?_, fun op hop => ?_, fun id hid => ?_, hpurged⟩
  · rw [hholder] at hop
    rw [hbackend]
    exact (h.place op hop).mono hkeep hfades hle
  · rw [hholder] at hop
    rw [hpurge]
    exact h.called op hop
  · rw [hdeletes] at hid
    obtain ⟨hm, hlt, hclosed⟩ := h.deletes id hid
    exact ⟨hm, hlt.trans_le hle, hfades.closed hm hlt hclosed⟩

theorem Inv.markInactive (h : Inv m s) (hmem : access ∈ s.accesses) (hmanaged : access.managed = false)
    (hopen : access.status.isClosed = false) : Inv m (s.setStatus access.id .inactive) := by
  have hrow : ∀ row ∈ s.accesses, row.id = access.id → row = access :=
    fun row hrow hid => h.table.eq_of_id hrow hmem hid
  have hchange : Change m s (s.setStatus access.id .inactive) := by
    refine h.writeStatus (g := fun _ => .inactive) (fun _ _ _ _ => nofun) (fun row hrow' hid => ?_)
      (Or.inr fun artefact hartefact => ?_)
    · rw [hrow row hrow' hid]
      refine ⟨fun hdeleted => ?_, fun _ _ => rfl⟩
      rw [hdeleted] at hopen
      cases hopen
    · obtain ⟨row, hrow', heq, hholds⟩ := h.table.bound artefact hartefact
      refine ⟨row, hrow', fun hid => ?_, heq, hholds⟩
      rw [hrow row hrow' hid, Holds, hmanaged] at hholds
      cases hholds.1
  refine h.beside hchange.table (fun row hrow' hrowManaged => ?_) hchange.fades le_rfl
    (hchange.outside h).2 rfl rfl rfl rfl
  refine mem_updateRow_of_ne hrow' fun hid => ?_
  rw [hrow row hrow' hid, hmanaged] at hrowManaged
  cases hrowManaged

theorem Inv.startRevoke (h : Inv m s) (hstep : m.startRevoke s id = some s') : Inv m s' := by
  cases m with
  | xray | awg | hysteria2 | socks5 => exact h.enter hstep ⟨nofun, nofun⟩ nofun
  | mtproto managed =>
    unfold ProtocolModule.startRevoke at hstep
    dsimp only at hstep
    cases hfind : s.getById id with
    | none =>
      rw [hfind] at hstep
      cases hstep
      exact h
    | some access =>
      obtain ⟨hmem, rfl⟩ := mem_of_getById hfind
      rw [hfind] at hstep
      dsimp only at hstep
      split_ifs at hstep with hclosed hmanaged
      · cases hstep
        exact h
      · refine h.enter hstep
          ⟨fun _ => ⟨(h.table.below access hmem).2, fun row hrow hid => ?_⟩, nofun⟩ nofun
        rw [h.table.eq_of_id hrow hmem hid]
        exact hmanaged
      · cases hstep
        rw [Bool.not_eq_true] at hclosed hmanaged
        cases hmark : s.markInactive access.id with
        | none => exact h
        | some s' =>
          obtain ⟨-, -, -, -, rfl⟩ := mark_eq_some hmark
          exact h.markInactive hmem hmanaged hclosed

theorem Inv.startDelete (h : Inv m s) {p : Bool} (hcalled : p = true → CalledOutside s id)
    (hstep : m.startDelete s p id = some s') : Inv m s' := by
  have hcurrent : p = true → ∃ id', some id = some id' ∧ s.purge.current = some id' :=
    fun hpurge => ⟨id, rfl, (hcalled hpurge).2⟩
  cases m with
  | xray | awg | hysteria2 | socks5 => exact h.enter hstep rfl hcurrent
  | mtproto managed =>
    unfold ProtocolModule.startDelete at hstep
    dsimp only at hstep
    cases hfind : s.getById id with
    | none =>
      rw [hfind] at hstep
      cases hstep
      exact h.count fun hpurge => ⟨id, hcalled hpurge, nofun⟩
    | some access =>
      obtain ⟨hmem, rfl⟩ := mem_of_getById hfind
      have hlt := (h.table.below access hmem).2
      rw [hfind] at hstep
      dsimp only at hstep
      split_ifs at hstep with hdeleted hclosed hmanaged
      · cases hstep
        refine h.count fun hpurge => ⟨access.id, hcalled hpurge, fun _ row hrow hid => ?_⟩
        rw [h.table.eq_of_id hrow hmem hid]
        exact hdeleted
      · cases hstep
        refine h.awaitMark rfl hlt (fun row hrow hid => ?_) hcalled
        rw [h.table.eq_of_id hrow hmem hid]
        exact hclosed
      · refine h.enter hstep ⟨fun _ => ⟨hlt, fun row hrow hid => ?_⟩, fun _ => rfl⟩ hcurrent
        rw [h.table.eq_of_id hrow hmem hid]
        exact hmanaged
      · rw [Bool.not_eq_true] at hclosed hmanaged
        cases hmark : s.markInactive access.id with
        | none =>
          rw [hmark] at hstep
          cases hstep
          exact h.count fun hpurge => ⟨access.id, hcalled hpurge, nofun⟩
        | some s'' =>
          rw [hmark] at hstep
          cases hstep
          obtain ⟨-, -, -, -, rfl⟩ := mark_eq_some hmark
          refine (h.markInactive hmem hmanaged hclosed).awaitMark rfl hlt (fun row hrow hid => ?_)
            hcalled
          rw [status_of_setStatus hrow hid]
          rfl

/-- `disable_protocol` goes on by itself. -/
theorem Inv.setPurge (h : Inv m s) (hcurrent : s.purge.current = none) {enabled : Bool} {purge : Purge}
    (hpurged : Purged m s.accesses s.nextId enabled purge) :
    Inv m { s with enabled := enabled, purge := purge } := by
  refine ⟨h.table, h.place, fun op hop hpurge => ?_, h.deletes, hpurged⟩
  obtain ⟨id, -, hid⟩ := h.called op hop hpurge
  rw [hcurrent] at hid
  cases hid

theorem calledOutside_of_not_any (hcurrent : s.purge.current = some id)
    (hany : ¬ s.holder.any Operation.purge = true) : CalledOutside s id := by
  refine ⟨fun op hop => ?_, hcurrent⟩
  rw [hop] at hany
  simpa using hany

theorem Inv.purgeStep (h : Inv m s) (hstep : purgeStep m s = some s') : Inv m s' := by
  have hpurge := h.purge
  unfold Modules.purgeStep at hstep
  cases hs : s.purge with
  | idle | returned | raised =>
    rw [hs] at hstep
    cases hstep
  | listing afterId ids =>
    rw [hs] at hstep hpurge
    obtain ⟨-, hcovered⟩ := hpurge
    have hcurrent : s.purge.current = none := hs ▸ rfl
    dsimp only at hstep
    split at hstep <;> cases hstep
    · next hempty =>
      have hpage := List.getLast?_eq_none_iff.1 hempty
      refine h.setPurge hcurrent fun _ row hrow => ?_
      rcases hcovered row hrow with hdeleted | hafter | hmem
      · exact Or.inl hdeleted
      · by_cases hdeleted : row.status = .deleted
        · exact Or.inl hdeleted
        · have hle := le_of_pageAfter_eq_nil (by omega) hpage hrow (decide_eq_true hdeleted)
          omega
      · exact Or.inr hmem
    · next last hlast =>
      have hmemLast := List.mem_of_getLast? hlast
      have hlastRow := (mem_of_mem_pageAfter hmemLast).1
      refine h.setPurge hcurrent ⟨(h.table.below last hlastRow).2, fun row hrow => ?_⟩
      rcases hcovered row hrow with hdeleted | hafter | hmem
      · exact Or.inl hdeleted
      · by_cases hdeleted : row.status = .deleted
        · exact Or.inl hdeleted
        · rcases lt_or_ge last.id row.id with hlt | hle
          · exact Or.inr (Or.inl hlt)
          · have hpage := mem_pageAfter_of_le h.table.sorted hmemLast hrow (decide_eq_true hdeleted)
              hafter hle
            exact Or.inr (Or.inr (List.mem_append_right _ (List.mem_map_of_mem hpage)))
      · exact Or.inr (Or.inr (List.mem_append_left _ hmem))
  | purging ids deleted failed =>
    have hcurrent : s.purge.current = none := hs ▸ rfl
    rw [hs] at hstep hpurge
    cases ids with
    | nil =>
      cases hstep
      refine h.setPurge hcurrent ⟨rfl, fun hfailed row hrow => ?_⟩
      exact (hpurge hfailed row hrow).imp_right fun hmem => nomatch hmem
    | cons id ids =>
      cases hstep
      refine h.setPurge hcurrent fun hfailed row hrow => ?_
      exact (hpurge hfailed row hrow).imp_right List.mem_cons.1
  | calling id ids deleted failed =>
    have hcurrent : s.purge.current = some id := hs ▸ rfl
    rw [hs] at hstep
    dsimp only at hstep
    split_ifs at hstep with hany
    exact h.startDelete (fun _ => calledOutside_of_not_any hcurrent hany) hstep
  | marking id ids deleted failed =>
    have hcurrent : s.purge.current = some id := hs ▸ rfl
    rw [hs] at hstep hpurge
    exact h.enter hstep hpurge.1 fun _ => ⟨id, rfl, hcurrent⟩

theorem Inv.purgeFail (h : Inv m s) (hstep : purgeFail s = some s') : Inv m s' := by
  have hcount : ∀ id, s.purge.current = some id →
      (if s.holder.any Operation.purge then none else some (s.count true false)) = some s' →
      Inv m s' := by
    intro id hcurrent hstep
    split_ifs at hstep with hany
    cases hstep
    exact h.count fun _ => ⟨id, calledOutside_of_not_any hcurrent hany, nofun⟩
  unfold Modules.purgeFail at hstep
  cases hs : s.purge with
  | idle | returned | raised =>
    rw [hs] at hstep
    cases hstep
  | listing afterId ids =>
    have hcurrent : s.purge.current = none := hs ▸ rfl
    rw [hs] at hstep
    cases hstep
    exact h.setPurge hcurrent trivial
  | purging ids deleted failed =>
    have hcurrent : s.purge.current = none := hs ▸ rfl
    rw [hs] at hstep
    cases ids with
    | nil =>
      cases hstep
      exact h.setPurge hcurrent trivial
    | cons => cases hstep
  | calling id ids deleted failed | marking id ids deleted failed =>
    rw [hs] at hstep
    exact hcount id (hs ▸ rfl) hstep

/-- **A step keeps the invariant when it inserts in time.** -/
theorem Inv.step (h : Inv m s) {a : Action} (hintime : InTime s a) (hstep : step m s a = some s') :
    Inv m s' := by
  -- What only changes the issues that wait for the lock.
  have hadmitted : ∀ admitted, Inv m { s with admitted := admitted } :=
    fun _ => ⟨h.table, h.place, h.called, h.deletes, h.purge⟩
  cases a with
  | ensureEnabled owner =>
    rw [Modules.step] at hstep
    split_ifs at hstep
    cases hstep
    exact hadmitted _
  | withdraw owner =>
    rw [Modules.step] at hstep
    split_ifs at hstep
    cases hstep
    exact hadmitted _
  | issue owner artefacts =>
    rw [Modules.step] at hstep
    split_ifs at hstep
    exact (hadmitted _).enter hstep trivial nofun
  | issueStatic owner secret =>
    rw [Modules.step] at hstep
    split_ifs at hstep with hadmit
    obtain ⟨-, rfl⟩ := hadmit
    dsimp only at hstep
    cases hfind : s.activeAccess owner with
    | some access =>
      rw [hfind] at hstep
      cases hstep
      exact hadmitted _
    | none =>
      rw [hfind] at hstep
      cases hstep
      have hlisted : s.purge.listed = false := hintime (by rw [inserts, hfind]; rfl)
      obtain ⟨htable, hfades, hpurged⟩ := h.insert ⟨s.nextId, owner, .active, secret, false⟩
        hlisted rfl nofun nofun
      exact h.beside htable (fun row hrow _ => List.mem_append_left _ hrow) hfades (Nat.le_succ _)
        hpurged rfl rfl rfl rfl
  | revoke id => exact h.startRevoke hstep
  | delete id => exact h.startDelete (p := false) nofun hstep
  | deleteMark id =>
    rw [Modules.step] at hstep
    split_ifs at hstep with hmem
    have herased : Inv m { s with deletes := s.deletes.erase id } :=
      ⟨h.table, h.place, h.called, fun id' hid' => h.deletes id' (List.mem_of_mem_erase hid'), h.purge⟩
    exact herased.enter hstep (h.deletes id hmem) nofun
  | returns =>
    obtain ⟨op, hop, rfl⟩ := Option.map_eq_some_iff.1 hstep
    exact h.advance hop hintime
  | raises done =>
    obtain ⟨op, hop, rfl⟩ := Option.map_eq_some_iff.1 hstep
    exact h.fail hop done
  | cancel =>
    obtain ⟨op, hop, rfl⟩ := Option.map_eq_some_iff.1 hstep
    refine ⟨h.table, fun _ hop => absurd hop.symm (Option.some_ne_none _),
      fun _ hop => absurd hop.symm (Option.some_ne_none _), h.deletes, ?_⟩
    show Purged m s.accesses s.nextId s.enabled (if op.purge then .raised else s.purge)
    split_ifs
    · trivial
    · exact h.purge
  | disable =>
    rw [Modules.step] at hstep
    cases hs : s.purge with
    | idle =>
      have hcurrent : s.purge.current = none := hs ▸ rfl
      rw [hs] at hstep
      cases hstep
      refine h.setPurge hcurrent ⟨h.table.pos, fun row hrow => ?_⟩
      exact Or.inr (Or.inl (h.table.below row hrow).1)
    | _ =>
      rw [hs] at hstep
      cases hstep
  | purgeReturns => exact h.purgeStep hstep
  | purgeRaises => exact h.purgeFail hstep

/-! ### Disabling is complete -/

/-- Nothing has been issued yet, and `disable_protocol` has not been called. -/
structure NewModule (s : ModuleState) : Prop where
  accesses : s.accesses = []
  nextId : 0 < s.nextId
  backend : s.backend = []
  holder : s.holder = none
  deletes : s.deletes = []
  purge : s.purge = .idle

theorem inv_of_newModule (m : ProtocolModule) (h : NewModule s) : Inv m s := by
  obtain ⟨enabled, accesses, nextId, backend, admitted, holder, deletes, purge⟩ := s
  obtain ⟨rfl, hpos, rfl, rfl, rfl, rfl⟩ := h
  have hheld : ∀ {P : Operation → Prop} (op : Operation), none = some op → P op :=
    fun op hop => absurd hop.symm (Option.some_ne_none op)
  exact ⟨⟨hpos, List.Pairwise.nil, List.forall_mem_nil _, fun _ => List.forall_mem_nil _,
    fun _ => List.forall_mem_nil _, List.forall_mem_nil _⟩, hheld, hheld, List.forall_mem_nil _, trivial⟩

/-- The module is off, and none of its accesses is left, neither in the table nor on the backend. -/
def FullyDisabled (s : ModuleState) : Prop :=
  s.enabled = false ∧ (∀ access ∈ s.accesses, access.status = .deleted) ∧ s.backend = []

/-- **Disabling is complete**: once `disable_protocol` has returned without failures, the module is
fully disabled in every state of a run that inserts rows in time.  So it is when an uninstall that
follows removes the backend. -/
theorem disable_complete {m : ProtocolModule} {start s : ModuleState} {actions : List Action}
    (hstart : NewModule start) (hintime : Allowed (step m) InTime start actions)
    (hrun : runFrom (step m) start actions = some s) {deleted : ℕ}
    (hreturned : s.purge = .returned deleted 0) : FullyDisabled s := by
  have hstep : ∀ s a s', Inv m s → InTime s a → step m s a = some s' → Inv m s' :=
    fun s a s' h ha hs' => h.step ha hs'
  have h := invariant_of_allowed hstep (inv_of_newModule m hstart) hintime hrun
  have hpurge := h.purge
  rw [hreturned] at hpurge
  have hdeleted : ∀ access ∈ s.accesses, access.status = .deleted :=
    fun access haccess => (hpurge.2 rfl access haccess).resolve_right id
  refine ⟨hpurge.1, hdeleted, List.eq_nil_iff_forall_not_mem.2 fun artefact hartefact => ?_⟩
  obtain ⟨access, haccess, -, -, hholds⟩ := h.table.bound artefact hartefact
  rw [hdeleted access haccess] at hholds
  cases m <;> cases hholds

/-- A module that is on, without accesses. -/
def newModule : ModuleState := ⟨true, [], 1, [], [], none, [], .idle⟩

/-- A key is issued, and then the module is disabled. -/
def issueAndDisable : List Action :=
  [.ensureEnabled 7, .issue 7 ["7d3f".toList]] ++ List.replicate 4 .returns ++ .disable ::
    List.replicate 4 .purgeReturns ++ List.replicate 4 .returns ++ [.purgeReturns]

theorem disable_complete_issueAndDisable :
    ∃ s, runFrom (step .xray) newModule issueAndDisable = some s ∧ s.purge = .returned 1 0 ∧
      FullyDisabled s := by
  have hintime : Allowed (step .xray) InTime newModule issueAndDisable := by decide +kernel
  have hpurge : (runFrom (step .xray) newModule issueAndDisable).map ModuleState.purge =
      some (.returned 1 0) := by decide +kernel
  obtain ⟨s, hrun, hreturned⟩ := Option.map_eq_some_iff.1 hpurge
  exact ⟨s, hrun, hreturned, disable_complete ⟨rfl, one_pos, rfl, rfl, rfl, rfl⟩ hintime hrun hreturned⟩

/-- An issue passes the check of the flag, and takes the lock after the listing. -/
def issueBeside : List Action :=
  [.ensureEnabled 7, .disable, .purgeReturns, .issue 7 ["7d3f".toList]] ++ List.replicate 4 .returns ++
    [.purgeReturns]

/-- **The purge knows the ids of its listing only**: a key is issued beside it, and stays. -/
theorem not_disable_complete :
    ¬ ∀ (m : ProtocolModule) (actions : List Action) (s : ModuleState) (deleted : ℕ),
      runFrom (step m) newModule actions = some s → s.purge = .returned deleted 0 →
      s.holder = none → s.admitted = [] → FullyDisabled s := by
  intro hclaim
  have hquiet : (runFrom (step .xray) newModule issueBeside).map
      (fun s => (s.purge, s.holder.isNone, s.admitted)) = some (.returned 0 0, true, []) := by
    decide +kernel
  have hbackend : (runFrom (step .xray) newModule issueBeside).map ModuleState.backend =
      some ["7d3f".toList] := by decide +kernel
  obtain ⟨s, hrun, hs⟩ := Option.map_eq_some_iff.1 hquiet
  obtain ⟨hreturned, hs⟩ := Prod.mk.inj hs
  obtain ⟨hholder, hadmitted⟩ := Prod.mk.inj hs
  have hdisabled := hclaim .xray issueBeside s 0 hrun hreturned (Option.isNone_iff_eq_none.1 hholder)
    hadmitted
  rw [hrun, Option.map_some, hdisabled.2.2] at hbackend
  cases hbackend

end VpnBot.Modules
