import VpnBot.Xray.Lifecycle

/-!
# A revoked key stays out

Once the row of an Xray key is `revoked` or gone, no inbound has a client with its UUID, then and in all
states that follow (`revoked_is_final`).  `Rows` ties each client with a generated UUID to the row of its
key, in a status in which access may exist, and `Place` says what the operation in the lock knows of the
rows that it holds.  `Owned` follows one UUID: before the revocation its rows are those of one key, and
after it no client has it and no operation would bring one back.
-/

namespace VpnBot.Xray

open Py Sys

/-! ### Statuses, and what is written to the tables -/

/-- The statuses in which the client of a key may be added. -/
def mayIssue : VpnKeyStatus → Bool
  | .pendingApply | .active | .applyFailed => true
  | .pendingRevoke | .revoked | .pendingDelete | .deleteFailed | .deleted | .failed => false

/-- No inbound has a client with the UUID. -/
def Absent (uuid : Text) (db : XrayState) : Prop :=
  ∀ t, ∀ client ∈ db.clients t, client.id ≠ uuid

/-- The row of the key is in the table, with the status. -/
def Held (db : XrayState) (key : VpnKey) (status : VpnKeyStatus) : Prop :=
  key.keyType = .xray ∧ { key with status := status } ∈ db.keys

namespace XrayState

/-- The status of a row is changed. -/
def writeStatus (id : ℕ) (g : VpnKeyStatus → VpnKeyStatus) (db : XrayState) : XrayState :=
  db.updateKey id fun key => { key with status := g key.status }

theorem setStatus_eq (id : ℕ) (status : VpnKeyStatus) (db : XrayState) :
    db.setStatus id status = db.writeStatus id fun _ => status := rfl

theorem markActive_eq (id : ℕ) (db : XrayState) :
    db.markActive id = db.writeStatus id fun status =>
      if status = .pendingApply ∨ status = .applyFailed then .active else status := by
  unfold markActive writeStatus
  congr 1
  funext key
  dsimp only
  split_ifs <;> rfl

theorem markRevoked_eq (id : ℕ) (db : XrayState) :
    db.markRevoked id = db.writeStatus id fun status =>
      if status = .revoked ∨ status = .deleted then status else .revoked := by
  unfold markRevoked writeStatus
  congr 1
  funext key
  dsimp only
  split_ifs <;> rfl

variable {db : XrayState} {id : ℕ} {g : VpnKeyStatus → VpnKeyStatus} {key : VpnKey}

theorem mem_writeStatus_of_ne (hkey : key ∈ db.keys) (hid : key.id ≠ id) :
    key ∈ (db.writeStatus id g).keys :=
  List.mem_map.2 ⟨key, hkey, if_neg hid⟩

theorem mem_writeStatus_self (hkey : key ∈ db.keys) :
    { key with status := g key.status } ∈ (db.writeStatus key.id g).keys :=
  List.mem_map.2 ⟨key, hkey, if_pos rfl⟩

theorem mem_writeStatus (h : key ∈ (db.writeStatus id g).keys) :
    ∃ old ∈ db.keys, key = { old with status := key.status } ∧
      (key = old ∨ old.id = id ∧ key.status = g old.status) := by
  obtain ⟨old, hold, rfl⟩ := List.mem_map.1 h
  refine ⟨old, hold, ?_⟩
  by_cases hid : old.id = id
  · rw [if_pos hid]
    exact ⟨rfl, Or.inr ⟨hid, rfl⟩⟩
  · rw [if_neg hid]
    exact ⟨rfl, Or.inl rfl⟩

theorem ids_writeStatus : (db.writeStatus id g).keys.map VpnKey.id = db.keys.map VpnKey.id := by
  unfold writeStatus updateKey
  rw [List.map_map]
  refine List.map_congr_left fun key _ => ?_
  show (if key.id = id then _ else key : VpnKey).id = key.id
  split_ifs <;> rfl

theorem clients_removeClient (t : Transport) (uuid email : Text) (t' : Transport) (client : Client) :
    client ∈ (db.removeClient t uuid email).clients t' ↔
      client ∈ db.clients t' ∧ (t' = t → matchesRemove uuid email client = false) := by
  unfold removeClient setClients
  by_cases ht : t' = t
  · subst ht
    simp
  · simp [ht]

end XrayState

theorem addClient_cases (t : Transport) (uuid email : Text) (db : XrayState) :
    (∃ db', addClient t uuid email db = .ok () db' ∧
        db' = db.setClients t (db.clients t ++ [⟨uuid, email⟩])) ∨
      ∃ e, addClient t uuid email db = .error e db := by
  unfold addClient
  by_cases hsafe : (!isEmailSafe email) = true
  · rw [if_pos hsafe]
    exact Or.inr ⟨_, rfl⟩
  · rw [if_neg hsafe]
    cases hfind : db.findClient t uuid email with
    | some client =>
      refine Or.inr ⟨.clientAlreadyExists, ?_⟩
      simp only [bind, EStateM.bind, get, getThe, MonadStateOf.get, EStateM.get, hfind]
      rfl
    | none =>
      refine Or.inl ⟨_, ?_, rfl⟩
      simp only [bind, EStateM.bind, get, getThe, MonadStateOf.get, EStateM.get, hfind]
      rfl

theorem mem_clients_setClients {db : XrayState} {t t' : Transport} {client c : Client} :
    c ∈ (db.setClients t (db.clients t ++ [client])).clients t' ↔
      c ∈ db.clients t' ∨ t' = t ∧ c = client := by
  unfold XrayState.setClients
  by_cases ht : t' = t
  · subst ht
    simp
  · simp [ht]

/-! ### Rows and clients -/

/-- The rows of the Xray keys have generated UUIDs, each its own, and a client with a generated UUID
belongs to a key whose access may exist, on the inbound of that key. -/
structure Rows (db : XrayState) (nextId : ℕ) (issued : List Text) : Prop where
  ids : (db.keys.map VpnKey.id).Nodup
  below : ∀ key ∈ db.keys, key.id < nextId
  named : ∀ uuid ∈ issued, uuid ≠ []
  generated : ∀ key ∈ db.keys, key.keyType = .xray → key.uuid ∈ issued ∧ key.ownUuid = key.uuid
  unique : ∀ key ∈ db.keys, ∀ key' ∈ db.keys, key.keyType = .xray → key'.keyType = .xray →
    key.uuid = key'.uuid → key = key'
  bound : ∀ t, ∀ client ∈ db.clients t, client.id ∈ issued →
    ∃ key ∈ db.keys, key.keyType = .xray ∧ key.uuid = client.id ∧ key.transport = t ∧
      key.status.accessMayExist = true

variable {db db' : XrayState} {nextId : ℕ} {issued : List Text} {key : VpnKey}
  {status : VpnKeyStatus}

theorem Rows.eq_of_id (h : Rows db nextId issued) {row row' : VpnKey} (hrow : row ∈ db.keys)
    (hrow' : row' ∈ db.keys) (hid : row.id = row'.id) : row = row' :=
  List.inj_on_of_nodup_map h.ids hrow hrow' hid

theorem Rows.eq_held (h : Rows db nextId issued) (hheld : Held db key status) {row : VpnKey}
    (hrow : row ∈ db.keys) (hid : row.id = key.id) : row = { key with status := status } :=
  h.eq_of_id hrow hheld.2 hid

theorem Rows.eq_held_of_uuid (h : Rows db nextId issued) (hheld : Held db key status) {row : VpnKey}
    (hrow : row ∈ db.keys) (hxray : row.keyType = .xray) (huuid : row.uuid = key.uuid) :
    row = { key with status := status } :=
  h.unique row hrow _ hheld.2 hxray hheld.1 huuid

theorem Rows.client_held (h : Rows db nextId issued) (hheld : Held db key status) {t : Transport}
    {client : Client} (hclient : client ∈ db.clients t) (huuid : client.id = key.uuid) :
    t = key.transport ∧ status.accessMayExist = true := by
  have hissued : client.id ∈ issued := huuid ▸ (h.generated _ hheld.2 hheld.1).1
  obtain ⟨row, hrow, hxray, hrowUuid, rfl, hmay⟩ := h.bound t client hclient hissued
  rw [h.eq_held_of_uuid hheld hrow hxray (hrowUuid.trans huuid)] at hmay ⊢
  exact ⟨rfl, hmay⟩

theorem Rows.absent_of_status (h : Rows db nextId issued) (hheld : Held db key status)
    (hstatus : status.accessMayExist = false) : Absent key.uuid db := by
  intro t client hclient huuid
  have hmay := (h.client_held hheld hclient huuid).2
  rw [hstatus] at hmay
  cases hmay

theorem Rows.absent_removed (h : Rows db nextId issued) (hheld : Held db key status) :
    Absent key.uuid (removeXrayAccess key db) := by
  intro t client hclient huuid
  obtain ⟨hclient, hkept⟩ := (XrayState.clients_removeClient _ _ _ _ _).1 hclient
  have htransport := (h.client_held hheld hclient huuid).1
  have hne : key.uuid ≠ [] := h.named _ (h.generated _ hheld.2 hheld.1).1
  have hmatch : matchesRemove key.uuid key.emailLabel client = true := by
    unfold matchesRemove
    rw [if_pos (by simpa using hne)]
    exact decide_eq_true huuid
  exact absurd hmatch (by rw [hkept htransport]; exact Bool.false_ne_true)

theorem Rows.shrink (h : Rows db nextId issued) (hkeys : db'.keys = db.keys)
    (hclients : ∀ t, ∀ client ∈ db'.clients t, client ∈ db.clients t) :
    Rows db' nextId issued := by
  refine ⟨?_, ?_, h.named, ?_, ?_, fun t client hclient => ?_⟩
  all_goals rw [hkeys]
  · exact h.ids
  · exact h.below
  · exact h.generated
  · exact h.unique
  · exact h.bound t client (hclients t client hclient)

theorem Absent.shrink {uuid : Text} (h : Absent uuid db)
    (hclients : ∀ t, ∀ client ∈ db'.clients t, client ∈ db.clients t) : Absent uuid db' :=
  fun t client hclient => h t client (hclients t client hclient)

theorem Rows.writeStatus (h : Rows db nextId issued) {id : ℕ} {g : VpnKeyStatus → VpnKeyStatus}
    (hstatus : ∀ row ∈ db.keys, row.id = id → row.keyType = .xray →
      row.status.accessMayExist = true → (g row.status).accessMayExist = true ∨ Absent row.uuid db) :
    Rows (db.writeStatus id g) nextId issued := by
  refine ⟨?_, fun row hrow => ?_, h.named, fun row hrow hxray => ?_, fun row hrow row' hrow' => ?_,
    fun t client hclient hissued => ?_⟩
  · rw [XrayState.ids_writeStatus]
    exact h.ids
  · obtain ⟨old, hold, heq, -⟩ := XrayState.mem_writeStatus hrow
    rw [heq]
    exact h.below old hold
  · obtain ⟨old, hold, heq, -⟩ := XrayState.mem_writeStatus hrow
    rw [heq] at hxray ⊢
    exact h.generated old hold hxray
  · obtain ⟨old, hold, rfl⟩ := List.mem_map.1 hrow
    obtain ⟨old', hold', rfl⟩ := List.mem_map.1 hrow'
    have hcolumns : ∀ row : VpnKey,
        (if row.id = id then { row with status := g row.status } else row).keyType = row.keyType ∧
        (if row.id = id then { row with status := g row.status } else row).uuid = row.uuid := by
      intro row
      split_ifs <;> exact ⟨rfl, rfl⟩
    rw [(hcolumns old).1, (hcolumns old').1, (hcolumns old).2, (hcolumns old').2]
    intro hxray hxray' huuid
    rw [h.unique old hold old' hold' hxray hxray' huuid]
  · obtain ⟨row, hrow, hxray, huuid, htransport, hmay⟩ := h.bound t client hclient hissued
    by_cases hid : row.id = id
    · subst hid
      refine ⟨_, XrayState.mem_writeStatus_self hrow, hxray, huuid, htransport, ?_⟩
      rcases hstatus row hrow rfl hxray hmay with hgood | habsent
      · exact hgood
      · exact absurd huuid.symm (habsent t client hclient)
    · exact ⟨row, XrayState.mem_writeStatus_of_ne hrow hid, hxray, huuid, htransport, hmay⟩

theorem Rows.hardDelete (h : Rows db nextId issued) (hheld : Held db key status)
    (habsent : Absent key.uuid db) : Rows (db.hardDelete key.id) nextId issued where
  ids := h.ids.sublist (List.filter_sublist.map _)
  below row hrow := h.below row (List.mem_of_mem_filter hrow)
  named := h.named
  generated row hrow := h.generated row (List.mem_of_mem_filter hrow)
  unique row hrow row' hrow' :=
    h.unique row (List.mem_of_mem_filter hrow) row' (List.mem_of_mem_filter hrow')
  bound t client hclient hissued := by
    obtain ⟨row, hrow, hxray, huuid, hrest⟩ := h.bound t client hclient hissued
    refine ⟨row, List.mem_filter.2 ⟨hrow, decide_eq_true fun hid => ?_⟩, hxray, huuid, hrest⟩
    rw [h.eq_held hheld hrow hid] at huuid
    exact habsent t client hclient huuid.symm

theorem Rows.withClient (h : Rows db nextId issued) (hheld : Held db key status)
    (hmay : status.accessMayExist = true) (email : Text) :
    Rows (db.setClients key.transport (db.clients key.transport ++ [⟨key.uuid, email⟩])) nextId
      issued where
  ids := h.ids
  below := h.below
  named := h.named
  generated := h.generated
  unique := h.unique
  bound t client hclient hissued := by
    rcases mem_clients_setClients.1 hclient with hold | ⟨rfl, rfl⟩
    · exact h.bound t client hold hissued
    · exact ⟨_, hheld.2, hheld.1, rfl, rfl, hmay⟩

/-! ### What an operation knows of its rows -/

/-- A UUID that no key and no client has. -/
structure New (db : XrayState) (issued : List Text) (uuid : Text) : Prop where
  issued : uuid ∈ issued
  stripped : strip uuid = uuid
  absent : Absent uuid db
  unused : ∀ key ∈ db.keys, key.keyType = .xray → key.uuid ≠ uuid

/-- Keys of a page that are still to come: rows of the table with ids of their own. -/
structure Page (db : XrayState) (keys : List VpnKey) : Prop where
  ids : (keys.map VpnKey.id).Nodup
  held : ∀ key ∈ keys, Held db key key.status ∧ startupReconcileStatuses key.status = true

/-- A key of a page and those after it. -/
structure Turn (db : XrayState) (key : VpnKey) (rest : List VpnKey) : Prop where
  page : Page db rest
  next : ∀ other ∈ rest, other.id ≠ key.id
  held : Held db key key.status
  status : startupReconcileStatuses key.status = true

/-- Keys that are rows with the status `active`. -/
def ActiveRows (db : XrayState) (keys : List VpnKey) : Prop :=
  ∀ key ∈ keys, Held db key key.status ∧ key.status = .active

/-- What the operation in the lock knows. -/
def Place (db : XrayState) (issued : List Text) : OpPc → Prop
  | .createIdentity _ _ candidates => ∀ pair ∈ candidates, New db issued pair.1
  | .createInsert _ _ uuid _ => New db issued uuid
  | .createApply key | .createFailed key | .createActivate key | .createCompensate key
  | .createCompensated key => Held db key .pendingApply
  | .revokeRead _ | .deleteRead _ | .reconcileRead _ | .reconcileActivate _ => True
  | .revokePending key => Held db key key.status ∧ key.status.accessMayExist = true
  | .revokeRemove key | .revokeRestore key =>
    Held db key .pendingRevoke ∧ key.status.accessMayExist = true
  | .revokeMark key => Held db key .pendingRevoke ∧ Absent key.uuid db
  | .deletePending key => Held db key key.status
  | .deleteRemove key | .deleteFailed key => Held db key .pendingDelete
  | .deleteRow key => Held db key .pendingDelete ∧ Absent key.uuid db
  | .reconcileFail key => Held db key .pendingApply
  | .startupPage _ _ => True
  | .startupKeys _ keys _ => Page db keys
  | .startupActivate key rest _ => Turn db key rest
  | .startupFail key rest _ => Turn db key rest ∧ key.status = .pendingApply
  | .startupRemove key rest _ | .startupDeleteFailed key rest => Turn db key rest
  | .startupFinish key rest _ => Turn db key rest ∧ Absent key.uuid db
  | .driftActive => True
  | .driftAll activeKeys | .driftNonLive activeKeys _ | .driftScan activeKeys _
  | .driftOrphans activeKeys _ _ _ | .driftRestore activeKeys => ActiveRows db activeKeys

/-- The invariant. -/
structure Inv (s : XrayService) : Prop where
  rows : Rows s.db s.nextId s.issued
  place : ∀ pc, s.holder = some pc → Place s.db s.issued pc

theorem Held.of_mem (hkey : key ∈ db.keys) (hxray : key.keyType = .xray) :
    Held db key key.status := ⟨hxray, hkey⟩

theorem Held.writeStatus {g : VpnKeyStatus → VpnKeyStatus} (h : Held db key status) :
    Held (db.writeStatus key.id g) key (g status) :=
  ⟨h.1, XrayState.mem_writeStatus_self h.2⟩

theorem Held.setStatus (h : Held db key status) (status' : VpnKeyStatus) :
    Held (db.setStatus key.id status') key status' := by
  rw [XrayState.setStatus_eq]
  exact h.writeStatus

theorem Held.writeStatus_of_ne {id : ℕ} {g : VpnKeyStatus → VpnKeyStatus} (h : Held db key status)
    (hid : key.id ≠ id) : Held (db.writeStatus id g) key status :=
  ⟨h.1, XrayState.mem_writeStatus_of_ne h.2 hid⟩

theorem Page.mono {keys : List VpnKey} (h : Page db keys)
    (hkeep : ∀ key ∈ keys, Held db key key.status → Held db' key key.status) : Page db' keys :=
  ⟨h.ids, fun key hkey => ⟨hkeep key hkey (h.held key hkey).1, (h.held key hkey).2⟩⟩

theorem Turn.writeStatus {rest : List VpnKey} (h : Turn db key rest)
    (g : VpnKeyStatus → VpnKeyStatus) : Page (db.writeStatus key.id g) rest :=
  h.page.mono fun other hother hheld => hheld.writeStatus_of_ne (h.next other hother)

theorem Turn.hardDelete {rest : List VpnKey} (h : Turn db key rest) :
    Page (db.hardDelete key.id) rest :=
  h.page.mono fun other hother hheld =>
    ⟨hheld.1, List.mem_filter.2 ⟨hheld.2, decide_eq_true (h.next other hother)⟩⟩

theorem Page.turn {rest : List VpnKey} (h : Page db (key :: rest)) : Turn db key rest where
  page := ⟨(List.nodup_cons.1 h.ids).2, fun other hother => h.held other (List.mem_cons_of_mem _ hother)⟩
  next _ hother hid := (List.nodup_cons.1 h.ids).1 (hid ▸ List.mem_map_of_mem hother)
  held := (h.held key List.mem_cons_self).1
  status := (h.held key List.mem_cons_self).2

theorem Rows.page (h : Rows db nextId issued) (lastId : ℕ) :
    Page db (db.listPage startupReconcileStatuses lastId) := by
  have hsublist : (db.listPage startupReconcileStatuses lastId).Sublist
      (db.listKeys startupReconcileStatuses) :=
    (List.take_sublist _ _).trans List.filter_sublist
  refine ⟨h.ids.sublist ((hsublist.trans List.filter_sublist).map _), fun key hkey => ?_⟩
  obtain ⟨hmem, hcond⟩ := List.mem_filter.1 (hsublist.subset hkey)
  rw [Bool.and_eq_true, decide_eq_true_eq] at hcond
  exact ⟨.of_mem hmem hcond.1, hcond.2⟩

theorem activeRows_listKeys (db : XrayState) :
    ActiveRows db (db.listKeys fun status => status = .active) := by
  intro key hkey
  obtain ⟨hmem, hcond⟩ := List.mem_filter.1 hkey
  rw [Bool.and_eq_true, decide_eq_true_eq, decide_eq_true_eq] at hcond
  exact ⟨.of_mem hmem hcond.1, hcond.2⟩

theorem mem_of_getById {id : ℕ} (h : db.getById id = some key) : key ∈ db.keys :=
  List.mem_of_find?_eq_some h

/-! ### The steps -/

variable {s s' : XrayService}

/-- The operation goes on, with the tables as they are to be. -/
theorem Inv.goto {db : XrayState} {pc : OpPc} (hrows : Rows db s.nextId s.issued)
    (hplace : Place db s.issued pc) : Inv (s.goto db pc) :=
  ⟨hrows, fun _ hpc => Option.some.inj hpc ▸ hplace⟩

/-- The operation leaves the lock. -/
theorem Inv.release {db : XrayState} (hrows : Rows db s.nextId s.issued) : Inv (s.release db) :=
  ⟨hrows, fun _ hpc => absurd hpc.symm (Option.some_ne_none _)⟩

theorem Rows.setStatus (h : Rows db nextId issued) (id : ℕ) {status : VpnKeyStatus}
    (hmay : status.accessMayExist = true) : Rows (db.setStatus id status) nextId issued :=
  XrayState.setStatus_eq id status db ▸ h.writeStatus fun _ _ _ _ _ => Or.inl hmay

theorem Rows.markActive (h : Rows db nextId issued) (id : ℕ) :
    Rows (db.markActive id) nextId issued := by
  rw [XrayState.markActive_eq]
  refine h.writeStatus fun row _ _ _ hmay => Or.inl ?_
  split_ifs
  · rfl
  · exact hmay

theorem Rows.markRevoked (h : Rows db nextId issued) (hheld : Held db key status)
    (habsent : Absent key.uuid db) : Rows (db.markRevoked key.id) nextId issued := by
  rw [XrayState.markRevoked_eq]
  refine h.writeStatus fun row hrow hid _ _ => Or.inr ?_
  rw [h.eq_held hheld hrow hid]
  exact habsent

theorem Rows.removeXrayAccess (h : Rows db nextId issued) (key : VpnKey) :
    Rows (removeXrayAccess key db) nextId issued :=
  h.shrink rfl fun _ _ hclient => ((XrayState.clients_removeClient _ _ _ _ _).1 hclient).1

theorem Rows.insertKey (h : Rows db nextId issued) {uuid : Text} (hnew : New db issued uuid)
    (transport : Transport) (shortId email : Text) :
    Rows (db.insertKey (pendingKey nextId transport shortId uuid email)) (nextId + 1) issued := by
  have hcases : ∀ row ∈ (db.insertKey (pendingKey nextId transport shortId uuid email)).keys,
      row ∈ db.keys ∨ row = pendingKey nextId transport shortId uuid email :=
    fun row hrow => (List.mem_append.1 hrow).imp_right List.mem_singleton.1
  refine ⟨?_, fun row hrow => ?_, h.named, fun row hrow hxray => ?_,
    fun row hrow row' hrow' hxray hxray' huuid => ?_, fun t client hclient hissued => ?_⟩
  · show ((db.keys ++ [pendingKey nextId transport shortId uuid email]).map VpnKey.id).Nodup
    rw [List.map_append, List.map_singleton, ← List.concat_eq_append]
    refine List.Nodup.concat (fun hmem => ?_) h.ids
    obtain ⟨row, hrow, hid⟩ := List.mem_map.1 hmem
    exact (h.below row hrow).ne hid
  · rcases hcases row hrow with hold | rfl
    · exact (h.below row hold).trans (Nat.lt_succ_self _)
    · exact Nat.lt_succ_self _
  · rcases hcases row hrow with hold | rfl
    · exact h.generated row hold hxray
    · have hne : uuid ≠ [] := h.named uuid hnew.issued
      refine ⟨hnew.issued, ?_⟩
      show strip (orText uuid uuid) = uuid
      rw [orText, ite_self]
      exact hnew.stripped
  · rcases hcases row hrow with hold | rfl <;> rcases hcases row' hrow' with hold' | rfl
    · exact h.unique row hold row' hold' hxray hxray' huuid
    · exact absurd huuid (hnew.unused row hold hxray)
    · exact absurd huuid.symm (hnew.unused row' hold' hxray')
    · rfl
  · obtain ⟨row, hrow, hrest⟩ := h.bound t client hclient hissued
    exact ⟨row, List.mem_append_left _ hrow, hrest⟩

theorem Rows.client_cases (h : Rows db nextId issued) (hheld : Held db key status)
    (hmay : status.accessMayExist = true) (email : Text) :
    (∃ db', addClient key.transport key.uuid email db = .ok () db' ∧ Rows db' nextId issued ∧
        db'.keys = db.keys) ∨
      ∃ e, addClient key.transport key.uuid email db = .error e db := by
  rcases addClient_cases key.transport key.uuid email db with ⟨db', hok, rfl⟩ | herror
  · exact Or.inl ⟨_, hok, h.withClient hheld hmay email, rfl⟩
  · exact Or.inr herror

theorem ActiveRows.congr {keys : List VpnKey} (h : ActiveRows db keys) (hkeys : db'.keys = db.keys) :
    ActiveRows db' keys :=
  fun key hkey => ⟨⟨(h key hkey).1.1, hkeys ▸ (h key hkey).1.2⟩, (h key hkey).2⟩

theorem Turn.place {rest : List VpnKey} (hturn : Turn s.db key rest) (failed : Bool) :
    Place s.db s.issued (s.startupTurn key rest failed) := by
  unfold XrayService.startupTurn
  cases hstatus : key.status with
  | pendingApply =>
    dsimp only
    cases s.db.findClient key.transport key.uuid key.emailLabel with
    | none => exact ⟨hturn, hstatus⟩
    | some _ => exact hturn
  | applyFailed =>
    dsimp only
    cases s.db.findClient key.transport key.uuid key.emailLabel with
    | none => exact hturn.page
    | some _ => exact hturn
  | pendingRevoke | pendingDelete | deleteFailed => exact hturn
  | active | revoked | deleted | failed => exact hturn.page

theorem removeOrphan_shrink {activeKeys : List VpnKey} {t : Transport} {client : Client}
    (h : removeOrphan activeKeys t client db = some db') :
    db'.keys = db.keys ∧ ∀ t, ∀ client ∈ db'.clients t, client ∈ db.clients t := by
  have hself : db.keys = db.keys ∧ ∀ t, ∀ client ∈ db.clients t, client ∈ db.clients t :=
    ⟨rfl, fun _ _ hclient => hclient⟩
  have hremove : ∀ t uuid email, (db.removeClient t uuid email).keys = db.keys ∧
      ∀ t', ∀ client ∈ (db.removeClient t uuid email).clients t', client ∈ db.clients t' :=
    fun t uuid email =>
      ⟨rfl, fun _ _ hclient => ((XrayState.clients_removeClient _ _ _ _ _).1 hclient).1⟩
  unfold removeOrphan at h
  dsimp only at h
  split at h
  · cases h
    exact hself
  · split at h
    · split at h <;> cases h
      · exact hself
      · exact hremove _ _ _
    · split at h <;> cases h
      exact hremove _ _ _

theorem removeNonLiveXrayClient_shrink (db : XrayState) (key : VpnKey) :
    (removeNonLiveXrayClient db key).keys = db.keys ∧
      ∀ t, ∀ client ∈ (removeNonLiveXrayClient db key).clients t, client ∈ db.clients t := by
  have hself : db.keys = db.keys ∧ ∀ t, ∀ client ∈ db.clients t, client ∈ db.clients t :=
    ⟨rfl, fun _ _ hclient => hclient⟩
  unfold removeNonLiveXrayClient
  split
  · exact hself
  · split
    · exact hself
    · exact ⟨rfl, fun _ _ hclient => ((XrayState.clients_removeClient _ _ _ _ _).1 hclient).1⟩

/-- **A call that returns keeps the invariant.** -/
theorem Inv.advance (h : Inv s) {pc : OpPc} (hpc : s.holder = some pc) : Inv (s.advance pc) := by
  have hplace := h.place pc hpc
  have hrows := h.rows
  cases pc with
  | createIdentity transport shortId candidates =>
    cases candidates with
    | nil => exact Inv.release hrows
    | cons pair rest =>
      rw [XrayService.advance]
      split_ifs
      · exact Inv.goto hrows (hplace pair List.mem_cons_self)
      · exact Inv.goto hrows fun other hother => hplace other (List.mem_cons_of_mem _ hother)
  | createInsert transport shortId uuid email =>
    refine ⟨hrows.insertKey hplace transport shortId email, fun pc hpc => ?_⟩
    cases hpc
    exact ⟨rfl, List.mem_append_right _ (List.mem_singleton.2 rfl)⟩
  | createApply key =>
    rw [XrayService.advance]
    -- `add_client` puts the client of the held key, or raises and writes nothing
    rcases hrows.client_cases hplace rfl key.emailLabel with ⟨db', hok, hrows', hkeys⟩ | ⟨e, herror⟩
    · rw [hok]
      exact Inv.goto hrows' ⟨hplace.1, hkeys ▸ hplace.2⟩
    · rw [herror]
      exact Inv.goto hrows hplace
  | createFailed key | createCompensated key | reconcileFail key =>
    exact Inv.release (hrows.setStatus key.id rfl)
  | createActivate key | reconcileActivate key => exact Inv.release (hrows.markActive key.id)
  | createCompensate key => exact Inv.goto (hrows.removeXrayAccess key) hplace
  | revokeRead id =>
    rw [XrayService.advance]
    cases hkey : s.db.getById id with
    | none => exact Inv.release hrows
    | some key =>
      dsimp only
      split_ifs with hcond
      -- read and checked under one lock, so the status still holds at the next await
      · rw [Bool.and_eq_true, decide_eq_true_eq] at hcond
        exact Inv.goto hrows ⟨.of_mem (mem_of_getById hkey) hcond.1, hcond.2⟩
      · exact Inv.release hrows
  | revokePending key =>
    exact Inv.goto (hrows.setStatus key.id rfl) ⟨hplace.1.setStatus _, hplace.2⟩
  | revokeRemove key =>
    exact Inv.goto (hrows.removeXrayAccess key) ⟨hplace.1, hrows.absent_removed hplace.1⟩
  | revokeRestore key => exact Inv.release (hrows.setStatus key.id hplace.2)
  | revokeMark key => exact Inv.release (hrows.markRevoked hplace.1 hplace.2)
  | deleteRead id =>
    rw [XrayService.advance]
    cases hkey : s.db.getById id with
    | none => exact Inv.release hrows
    | some key =>
      dsimp only
      split_ifs with hxray
      · exact Inv.goto hrows (.of_mem (mem_of_getById hkey) hxray)
      · exact Inv.release hrows
  | deletePending key =>
    rw [XrayService.advance]
    have hheld := hplace.setStatus .pendingDelete
    refine Inv.goto (hrows.setStatus key.id rfl) ?_
    -- a status whose access cannot exist has no client to remove
    split_ifs with hmay
    · exact hheld
    · rw [Bool.not_eq_true] at hmay
      exact ⟨hheld, hrows.absent_of_status hplace hmay⟩
  | deleteRemove key =>
    exact Inv.goto (hrows.removeXrayAccess key) ⟨hplace, hrows.absent_removed hplace⟩
  | deleteFailed key => exact Inv.release (hrows.setStatus key.id rfl)
  | deleteRow key => exact Inv.release (hrows.hardDelete hplace.1 hplace.2)
  | reconcileRead id =>
    rw [XrayService.advance]
    cases hkey : s.db.getById id with
    | none => exact Inv.release hrows
    | some key =>
      dsimp only
      by_cases hxray : key.keyType = .xray
      · rw [if_pos hxray]
        cases s.db.findClient key.transport key.uuid key.emailLabel with
        | some client =>
          dsimp only
          split_ifs
          · exact Inv.goto hrows trivial
          · exact Inv.release hrows
        | none =>
          dsimp only
          split_ifs with hpending
          · have hheld := Held.of_mem (mem_of_getById hkey) hxray
            rw [hpending] at hheld
            exact Inv.goto hrows hheld
          · exact Inv.release hrows
      · rw [if_neg hxray]
        exact Inv.release hrows
  | startupPage lastId failed =>
    have hpage := hrows.page lastId
    rw [XrayService.advance]
    split
    · split_ifs
      · exact Inv.release hrows
      · exact Inv.goto hrows trivial
    · exact Inv.goto hrows hpage
  | startupKeys lastId keys failed =>
    cases keys with
    | nil => exact Inv.goto hrows trivial
    | cons key rest => exact Inv.goto hrows (hplace.turn.place failed)
  | startupActivate key rest failed =>
    refine Inv.goto (hrows.markActive key.id) ?_
    rw [XrayState.markActive_eq]
    exact hplace.writeStatus _
  | startupFail key rest failed =>
    exact Inv.goto (hrows.setStatus key.id rfl) (hplace.1.writeStatus fun _ => .applyFailed)
  | startupRemove key rest failed =>
    have hpage : Page (removeXrayAccess key s.db) rest := hplace.page.mono fun _ _ hheld => hheld
    exact Inv.goto (hrows.removeXrayAccess key)
      ⟨⟨hpage, hplace.next, hplace.held, hplace.status⟩, hrows.absent_removed hplace.held⟩
  | startupFinish key rest failed =>
    rw [XrayService.advance]
    split_ifs
    · refine Inv.goto (hrows.markRevoked hplace.1.held hplace.2) ?_
      rw [XrayState.markRevoked_eq]
      exact hplace.1.writeStatus _
    · exact Inv.goto (hrows.hardDelete hplace.1.held hplace.2) hplace.1.hardDelete
  | startupDeleteFailed key rest =>
    exact Inv.goto (hrows.setStatus key.id rfl) (hplace.writeStatus fun _ => .deleteFailed)
  | driftActive => exact Inv.goto hrows (activeRows_listKeys s.db)
  | driftAll activeKeys => exact Inv.goto hrows hplace
  | driftNonLive activeKeys keys =>
    cases keys with
    | nil => exact Inv.goto hrows hplace
    | cons key rest =>
      obtain ⟨hkeys, hclients⟩ := removeNonLiveXrayClient_shrink s.db key
      exact Inv.goto (hrows.shrink hkeys hclients) (hplace.congr hkeys)
  | driftScan activeKeys transports => cases transports <;> exact Inv.goto hrows hplace
  | driftOrphans activeKeys t clients transports =>
    cases clients with
    | nil => exact Inv.goto hrows hplace
    | cons client clients =>
      rw [XrayService.advance]
      split
      · next db hremoved =>
        obtain ⟨hkeys, hclients⟩ := removeOrphan_shrink hremoved
        exact Inv.goto (hrows.shrink hkeys hclients) (hplace.congr hkeys)
      · exact Inv.release hrows
  | driftRestore keys =>
    cases keys with
    | nil => exact Inv.release hrows
    | cons key rest =>
      have hrest : ActiveRows s.db rest := fun other hother => hplace other (List.mem_cons_of_mem _ hother)
      obtain ⟨hheld, hactive⟩ := hplace key List.mem_cons_self
      have hown : key.ownUuid = key.uuid := (hrows.generated key hheld.2 hheld.1).2
      rw [XrayService.advance, hown]
      split_ifs
      · exact Inv.release hrows
      split
      · exact Inv.goto hrows hrest
      rcases hrows.client_cases hheld (by rw [hactive]; rfl) key.ownEmail with
        ⟨db', hok, hrows', hkeys⟩ | ⟨e, herror⟩
      · rw [hok]
        exact Inv.goto hrows' (hrest.congr hkeys)
      · rw [herror]
        exact Inv.release hrows

theorem Place.raised {pc pc' : OpPc} (h : Place db issued pc) (hpc' : pc.raised = some pc') :
    Place db issued pc' := by
  cases pc with
  | createApply key | createActivate key | deleteRemove key =>
    cases hpc'
    exact h
  | revokeRemove key =>
    cases hpc'
    exact h
  | startupKeys lastId keys failed =>
    cases keys with
    | nil => cases hpc'
    | cons key rest =>
      cases hpc'
      exact h.turn.page
  | startupActivate key rest failed | startupDeleteFailed key rest =>
    cases hpc'
    exact h.page
  | startupFail key rest failed | startupFinish key rest failed =>
    cases hpc'
    exact h.1.page
  | startupRemove key rest failed =>
    rw [OpPc.raised] at hpc'
    split_ifs at hpc'
    · cases hpc'
      exact h.page
    · cases hpc'
      exact h
  | _ => cases hpc'

/-- `uuid4` gives texts without blanks, each one new: no key had it, and no client has it. -/
def FreshUuids (s : XrayService) : OpAction → Prop
  | .create _ _ candidates => ∀ pair ∈ candidates,
      pair.1 ≠ [] ∧ strip pair.1 = pair.1 ∧ pair.1 ∉ s.issued ∧ Absent pair.1 s.db
  | _ => True

/-- An operation takes the lock. -/
theorem Inv.enter (h : Inv s) {pc : OpPc} (hstep : s.enter pc = some s')
    (hplace : Place s.db s.issued pc) : Inv s' := by
  unfold XrayService.enter at hstep
  cases hholder : s.holder with
  | some _ =>
    rw [hholder] at hstep
    cases hstep
  | none =>
    rw [hholder] at hstep
    cases hstep
    exact ⟨h.rows, fun _ hpc => Option.some.inj hpc ▸ hplace⟩

theorem Rows.generate (h : Rows db nextId issued) {uuids : List Text}
    (hnew : ∀ uuid ∈ uuids, uuid ≠ [] ∧ Absent uuid db) : Rows db nextId (uuids ++ issued) where
  ids := h.ids
  below := h.below
  named uuid huuid := (List.mem_append.1 huuid).elim (fun hmem => (hnew uuid hmem).1) (h.named uuid)
  generated key hkey hxray :=
    ⟨List.mem_append_right _ (h.generated key hkey hxray).1, (h.generated key hkey hxray).2⟩
  unique := h.unique
  bound t client hclient hissued := by
    rcases List.mem_append.1 hissued with hmem | hold
    · exact absurd rfl ((hnew client.id hmem).2 t client hclient)
    · exact h.bound t client hclient hold

/-- **A step keeps the invariant.** -/
theorem Inv.step (h : Inv s) {a : OpAction} (hfresh : FreshUuids s a) (hstep : s.step a = some s') :
    Inv s' := by
  cases a with
  | create transport shortId candidates =>
    rw [XrayService.step, XrayService.enter] at hstep
    cases hholder : s.holder with
    | some _ =>
      rw [hholder] at hstep
      cases hstep
    | none =>
      rw [hholder] at hstep
      cases hstep
      have hnew : ∀ uuid ∈ candidates.map Prod.fst, uuid ≠ [] ∧ Absent uuid s.db := by
        intro uuid huuid
        obtain ⟨pair, hpair, rfl⟩ := List.mem_map.1 huuid
        exact ⟨(hfresh pair hpair).1, (hfresh pair hpair).2.2.2⟩
      refine ⟨h.rows.generate hnew, fun pc hpc => ?_⟩
      cases hpc
      intro pair hpair
      obtain ⟨-, hstrip, hissued, habsent⟩ := hfresh pair hpair
      exact ⟨List.mem_append_left _ (List.mem_map_of_mem hpair), hstrip, habsent,
        fun key hkey hxray huuid => hissued (huuid ▸ (h.rows.generated key hkey hxray).1)⟩
  | revoke id | delete id | reconcile id | startup => exact h.enter hstep trivial
  | returns =>
    obtain ⟨pc, hpc, rfl⟩ := Option.map_eq_some_iff.1 hstep
    exact h.advance hpc
  | raises =>
    obtain ⟨pc, hpc, rfl⟩ := Option.map_eq_some_iff.1 hstep
    exact ⟨h.rows, fun pc' hpc' => (h.place pc hpc).raised hpc'⟩
  | die =>
    cases hstep
    exact ⟨h.rows, fun _ hpc => absurd hpc.symm (Option.some_ne_none _)⟩


/-! ### The UUID of one key -/

/-- What the tables have of the UUID: its rows are those of one key.  If the key is revoked, no client
has the UUID, and from no row with it one may be added. -/
structure Traces (id : ℕ) (uuid : Text) (revoked : Prop) (db : XrayState) : Prop where
  rows : ∀ row ∈ db.keys, row.keyType = .xray → row.uuid = uuid →
    row.id = id ∧ (revoked → mayIssue row.status = false)
  absent : revoked → Absent uuid db

/-- The operation does not insert a row with the UUID.  If the key is revoked, it does not put back a
status in which its client may be added. -/
def OpPc.Spares (uuid : Text) (revoked : Prop) : OpPc → Prop
  | .createIdentity _ _ candidates => ∀ pair ∈ candidates, pair.1 ≠ uuid
  | .createInsert _ _ new _ => new ≠ uuid
  | .revokePending key | .revokeRemove key | .revokeRestore key =>
    revoked → key.uuid = uuid → mayIssue key.status = false
  | _ => True

/-- The UUID belongs to one key. -/
structure Owned (id : ℕ) (uuid : Text) (revoked : Prop) (s : XrayService) : Prop where
  issued : uuid ∈ s.issued
  traces : Traces id uuid revoked s.db
  spares : ∀ pc, s.holder = some pc → pc.Spares uuid revoked

theorem Inv.owned (h : Inv s) (hkey : key ∈ s.db.keys) (hxray : key.keyType = .xray) :
    Owned key.id key.uuid False s where
  issued := (h.rows.generated key hkey hxray).1
  traces := by
    refine ⟨fun row hrow hrowXray huuid => ⟨?_, False.elim⟩, False.elim⟩
    rw [h.rows.unique row hrow key hkey hrowXray hxray huuid]
  spares pc hpc := by
    have hplace := h.place pc hpc
    cases pc with
    | createIdentity transport shortId candidates =>
      exact fun pair hpair => ((hplace pair hpair).unused key hkey hxray).symm
    | createInsert transport shortId uuid email => exact (hplace.unused key hkey hxray).symm
    | revokePending key | revokeRemove key | revokeRestore key => exact False.elim
    | _ => trivial

theorem Owned.revoke (h : Inv s) {id : ℕ} {uuid : Text} {revoked : Prop}
    (howned : Owned id uuid revoked s) (hrow : ∀ row ∈ s.db.keys, row.id = id → row.status = .revoked) :
    Owned id uuid True s where
  issued := howned.issued
  traces := by
    refine ⟨fun row hmem hxray huuid => ?_, fun _ t client hclient huuid => ?_⟩
    · have hid := (howned.traces.rows row hmem hxray huuid).1
      rw [hrow row hmem hid]
      exact ⟨hid, fun _ => rfl⟩
    · obtain ⟨row, hmem, hxray, hrowUuid, -, hmay⟩ :=
        h.rows.bound t client hclient (huuid ▸ howned.issued)
      have hid := (howned.traces.rows row hmem hxray (hrowUuid.trans huuid)).1
      rw [hrow row hmem hid] at hmay
      cases hmay
  spares pc hpc := by
    have hplace := h.place pc hpc
    have hspares := howned.spares pc hpc
    -- A row that is held with the UUID is that of the key, and its status is `revoked`.
    have hheld : ∀ {key : VpnKey} {status : VpnKeyStatus}, Held s.db key status → key.uuid = uuid →
        status = .revoked := fun hheld huuid =>
      hrow _ hheld.2 (howned.traces.rows _ hheld.2 hheld.1 huuid).1
    cases pc with
    | createIdentity transport shortId candidates => exact hspares
    | createInsert transport shortId uuid email => exact hspares
    | revokePending key =>
      intro _ huuid
      rw [hheld hplace.1 huuid]
      rfl
    | revokeRemove key | revokeRestore key =>
      intro _ huuid
      cases hheld hplace.1 huuid
    | _ => trivial

section

variable {id : ℕ} {uuid : Text} {revoked : Prop}

theorem Traces.shrink (h : Traces id uuid revoked db) (hkeys : db'.keys = db.keys)
    (hclients : ∀ t, ∀ client ∈ db'.clients t, client ∈ db.clients t) :
    Traces id uuid revoked db' :=
  ⟨hkeys ▸ h.rows, fun hrevoked => (h.absent hrevoked).shrink hclients⟩

theorem Traces.removeXrayAccess (h : Traces id uuid revoked db) (key : VpnKey) :
    Traces id uuid revoked (removeXrayAccess key db) :=
  h.shrink rfl fun _ _ hclient => ((XrayState.clients_removeClient _ _ _ _ _).1 hclient).1

theorem Traces.hardDelete (h : Traces id uuid revoked db) (id' : ℕ) :
    Traces id uuid revoked (db.hardDelete id') :=
  ⟨fun row hrow => h.rows row (List.mem_of_mem_filter hrow), h.absent⟩

theorem Traces.writeStatus (h : Traces id uuid revoked db) {id' : ℕ}
    {g : VpnKeyStatus → VpnKeyStatus}
    (hstatus : ∀ row ∈ db.keys, row.id = id' → row.keyType = .xray → row.uuid = uuid → revoked →
      mayIssue row.status = false → mayIssue (g row.status) = false) :
    Traces id uuid revoked (db.writeStatus id' g) := by
  refine ⟨fun row hrow hxray huuid => ?_, h.absent⟩
  obtain ⟨old, hold, heq, hcases⟩ := XrayState.mem_writeStatus hrow
  have holdXray : old.keyType = .xray := by
    rw [heq] at hxray
    exact hxray
  have holdUuid : old.uuid = uuid := by
    rw [heq] at huuid
    exact huuid
  obtain ⟨hid, hmay⟩ := h.rows old hold holdXray holdUuid
  rw [heq]
  refine ⟨hid, fun hrevoked => ?_⟩
  rcases hcases with hsame | ⟨holdId, hwritten⟩
  · rw [hsame]
    exact hmay hrevoked
  · rw [hwritten]
    exact hstatus old hold holdId holdXray holdUuid hrevoked (hmay hrevoked)

theorem Traces.setStatus (h : Traces id uuid revoked db) (id' : ℕ) {status : VpnKeyStatus}
    (hmay : mayIssue status = false) : Traces id uuid revoked (db.setStatus id' status) := by
  rw [XrayState.setStatus_eq]
  exact h.writeStatus fun _ _ _ _ _ _ _ => hmay

theorem Traces.markActive (h : Traces id uuid revoked db) (id' : ℕ) :
    Traces id uuid revoked (db.markActive id') := by
  rw [XrayState.markActive_eq]
  refine h.writeStatus fun row _ _ _ _ _ hmay => ?_
  rw [if_neg (by rintro (hstatus | hstatus) <;> rw [hstatus] at hmay <;> cases hmay)]
  exact hmay

theorem Traces.markRevoked (h : Traces id uuid revoked db) (id' : ℕ) :
    Traces id uuid revoked (db.markRevoked id') := by
  rw [XrayState.markRevoked_eq]
  refine h.writeStatus fun row _ _ _ _ _ hmay => ?_
  split_ifs
  · exact hmay
  · rfl

theorem Traces.ne_of_mayIssue (h : Traces id uuid revoked db) (hheld : Held db key status)
    (hmay : mayIssue status = true) (hrevoked : revoked) : key.uuid ≠ uuid := by
  intro huuid
  have hnot := (h.rows _ hheld.2 hheld.1 huuid).2 hrevoked
  rw [hmay] at hnot
  cases hnot

theorem Traces.setStatus_held (h : Traces id uuid revoked db) (hrows : Rows db nextId issued)
    (hheld : Held db key status) (status' : VpnKeyStatus)
    (hspares : revoked → key.uuid = uuid → mayIssue status' = false) :
    Traces id uuid revoked (db.setStatus key.id status') := by
  rw [XrayState.setStatus_eq]
  refine h.writeStatus fun row hrow hid _ huuid hrevoked _ => hspares hrevoked ?_
  rw [hrows.eq_held hheld hrow hid] at huuid
  exact huuid

theorem Traces.setStatus_mayIssue (h : Traces id uuid revoked db) (hrows : Rows db nextId issued)
    (hheld : Held db key status) (hmay : mayIssue status = true) (status' : VpnKeyStatus) :
    Traces id uuid revoked (db.setStatus key.id status') :=
  h.setStatus_held hrows hheld status' fun hrevoked huuid =>
    absurd huuid (h.ne_of_mayIssue hheld hmay hrevoked)

theorem Traces.withClient (h : Traces id uuid revoked db) (hheld : Held db key status)
    (hmay : mayIssue status = true) (email : Text) :
    Traces id uuid revoked
      (db.setClients key.transport (db.clients key.transport ++ [⟨key.uuid, email⟩])) := by
  refine ⟨h.rows, fun hrevoked t client hclient => ?_⟩
  rcases mem_clients_setClients.1 hclient with hold | ⟨-, rfl⟩
  · exact h.absent hrevoked t client hold
  · exact h.ne_of_mayIssue hheld hmay hrevoked

theorem Traces.insertKey (h : Traces id uuid revoked db) (hother : key.uuid ≠ uuid) :
    Traces id uuid revoked (db.insertKey key) := by
  refine ⟨fun row hrow hxray huuid => ?_, h.absent⟩
  rcases List.mem_append.1 hrow with hold | hnew
  · exact h.rows row hold hxray huuid
  · rw [List.mem_singleton.1 hnew] at huuid
    exact absurd huuid hother

theorem Owned.goto (h : Owned id uuid revoked s) {db : XrayState} {pc : OpPc}
    (htraces : Traces id uuid revoked db) (hspares : pc.Spares uuid revoked) :
    Owned id uuid revoked (s.goto db pc) :=
  ⟨h.issued, htraces, fun _ hpc => Option.some.inj hpc ▸ hspares⟩

theorem Owned.release (h : Owned id uuid revoked s) {db : XrayState}
    (htraces : Traces id uuid revoked db) : Owned id uuid revoked (s.release db) :=
  ⟨h.issued, htraces, fun _ hpc => absurd hpc.symm (Option.some_ne_none _)⟩

/-- **A call that returns leaves the UUID to its key.** -/
theorem Owned.advance (h : Owned id uuid revoked s) (hinv : Inv s) {pc : OpPc}
    (hpc : s.holder = some pc) : Owned id uuid revoked (s.advance pc) := by
  have hplace := hinv.place pc hpc
  have hspares := h.spares pc hpc
  have htraces := h.traces
  cases pc with
  | createIdentity transport shortId candidates =>
    cases candidates with
    | nil => exact h.release htraces
    | cons pair rest =>
      rw [XrayService.advance]
      split_ifs
      · exact h.goto htraces (hspares pair List.mem_cons_self)
      · exact h.goto htraces fun other hother => hspares other (List.mem_cons_of_mem _ hother)
  | createInsert transport shortId new email =>
    refine ⟨h.issued, htraces.insertKey hspares, fun pc hpc => ?_⟩
    cases hpc
    trivial
  | createApply key =>
    rw [XrayService.advance]
    rcases addClient_cases key.transport key.uuid key.emailLabel s.db with ⟨db', hok, rfl⟩ | ⟨e, herror⟩
    · rw [hok]
      exact h.goto (htraces.withClient hplace rfl key.emailLabel) trivial
    · rw [herror]
      exact h.goto htraces trivial
  | createFailed key | createCompensated key | reconcileFail key =>
    exact h.release (htraces.setStatus_mayIssue hinv.rows hplace rfl .applyFailed)
  | createActivate key | reconcileActivate key => exact h.release (htraces.markActive key.id)
  | createCompensate key => exact h.goto (htraces.removeXrayAccess key) trivial
  | revokeRead id' =>
    rw [XrayService.advance]
    cases hkey : s.db.getById id' with
    | none => exact h.release htraces
    | some key =>
      dsimp only
      -- a revoked key of this UUID cannot be read with access that may exist
      split_ifs with hcond
      · rw [Bool.and_eq_true, decide_eq_true_eq] at hcond
        exact h.goto htraces fun hrevoked huuid =>
          (htraces.rows key (mem_of_getById hkey) hcond.1 huuid).2 hrevoked
      · exact h.release htraces
  | revokePending key => exact h.goto (htraces.setStatus key.id rfl) hspares
  | revokeRemove key => exact h.goto (htraces.removeXrayAccess key) trivial
  | revokeRestore key =>
    exact h.release (htraces.setStatus_held hinv.rows hplace.1 key.status hspares)
  | revokeMark key => exact h.release (htraces.markRevoked key.id)
  | deleteRead id' =>
    rw [XrayService.advance]
    cases s.db.getById id' with
    | none => exact h.release htraces
    | some key =>
      dsimp only
      split_ifs
      · exact h.goto htraces trivial
      · exact h.release htraces
  | deletePending key =>
    refine h.goto (htraces.setStatus key.id rfl) ?_
    split_ifs <;> trivial
  | deleteRemove key => exact h.goto (htraces.removeXrayAccess key) trivial
  | deleteFailed key => exact h.release (htraces.setStatus key.id rfl)
  | deleteRow key => exact h.release (htraces.hardDelete key.id)
  | reconcileRead id' =>
    rw [XrayService.advance]
    cases s.db.getById id' with
    | none => exact h.release htraces
    | some key =>
      dsimp only
      by_cases hxray : key.keyType = .xray
      · rw [if_pos hxray]
        cases s.db.findClient key.transport key.uuid key.emailLabel with
        | some client =>
          dsimp only
          split_ifs
          · exact h.goto htraces trivial
          · exact h.release htraces
        | none =>
          dsimp only
          split_ifs
          · exact h.goto htraces trivial
          · exact h.release htraces
      · rw [if_neg hxray]
        exact h.release htraces
  | startupPage lastId failed =>
    rw [XrayService.advance]
    split
    · split_ifs
      · exact h.release htraces
      · exact h.goto htraces trivial
    · exact h.goto htraces trivial
  | startupKeys lastId keys failed =>
    cases keys with
    | nil => exact h.goto htraces trivial
    | cons key rest =>
      refine h.goto htraces ?_
      unfold XrayService.startupTurn
      split
      · split <;> trivial
      · split <;> trivial
      all_goals trivial
  | startupActivate key rest failed => exact h.goto (htraces.markActive key.id) trivial
  | startupFail key rest failed =>
    have hmay : mayIssue key.status = true := by
      rw [hplace.2]
      rfl
    exact h.goto (htraces.setStatus_mayIssue hinv.rows hplace.1.held hmay .applyFailed) trivial
  | startupRemove key rest failed => exact h.goto (htraces.removeXrayAccess key) trivial
  | startupFinish key rest failed =>
    rw [XrayService.advance]
    split_ifs
    · exact h.goto (htraces.markRevoked key.id) trivial
    · exact h.goto (htraces.hardDelete key.id) trivial
  | startupDeleteFailed key rest => exact h.goto (htraces.setStatus key.id rfl) trivial
  | driftActive | driftAll activeKeys => exact h.goto htraces trivial
  | driftNonLive activeKeys keys =>
    cases keys with
    | nil => exact h.goto htraces trivial
    | cons key rest =>
      obtain ⟨hkeys, hclients⟩ := removeNonLiveXrayClient_shrink s.db key
      exact h.goto (htraces.shrink hkeys hclients) trivial
  | driftScan activeKeys transports => cases transports <;> exact h.goto htraces trivial
  | driftOrphans activeKeys t clients transports =>
    cases clients with
    | nil => exact h.goto htraces trivial
    | cons client clients =>
      rw [XrayService.advance]
      split
      · next db hremoved =>
        obtain ⟨hkeys, hclients⟩ := removeOrphan_shrink hremoved
        exact h.goto (htraces.shrink hkeys hclients) trivial
      · exact h.release htraces
  | driftRestore keys =>
    cases keys with
    | nil => exact h.release htraces
    | cons key rest =>
      obtain ⟨hheld, hactive⟩ := hplace key List.mem_cons_self
      -- the drift repair puts the own UUID of the key, which is its generated one
      have hown : key.ownUuid = key.uuid := (hinv.rows.generated key hheld.2 hheld.1).2
      rw [XrayService.advance, hown]
      split_ifs
      · exact h.release htraces
      split
      · exact h.goto htraces trivial
      rcases addClient_cases key.transport key.uuid key.ownEmail s.db with ⟨db', hok, rfl⟩ | ⟨e, herror⟩
      · rw [hok]
        exact h.goto (htraces.withClient hheld (by rw [hactive]; rfl) key.ownEmail) trivial
      · rw [herror]
        exact h.release htraces

/-- What an operation does after its call has raised, it was about to do. -/
theorem OpPc.Spares.raised {pc pc' : OpPc} (h : pc.Spares uuid revoked)
    (hpc' : pc.raised = some pc') : pc'.Spares uuid revoked := by
  cases pc with
  | revokeRemove key =>
    cases hpc'
    exact h
  | startupKeys lastId keys failed =>
    cases keys with
    | nil => cases hpc'
    | cons key rest =>
      cases hpc'
      trivial
  | startupRemove key rest failed =>
    rw [OpPc.raised] at hpc'
    split_ifs at hpc' <;> cases hpc' <;> trivial
  | _ => cases hpc' <;> trivial

/-- **A step leaves the UUID to its key.** -/
theorem Owned.step (h : Owned id uuid revoked s) (hinv : Inv s) {a : OpAction}
    (hfresh : FreshUuids s a) (hstep : s.step a = some s') : Owned id uuid revoked s' := by
  have henter : ∀ {pc : OpPc}, s.enter pc = some s' → pc.Spares uuid revoked →
      Owned id uuid revoked s' := by
    intro pc hstep hspares
    unfold XrayService.enter at hstep
    cases hholder : s.holder with
    | some _ =>
      rw [hholder] at hstep
      cases hstep
    | none =>
      rw [hholder] at hstep
      cases hstep
      exact ⟨h.issued, h.traces, fun _ hpc => Option.some.inj hpc ▸ hspares⟩
  cases a with
  | create transport shortId candidates =>
    rw [XrayService.step, XrayService.enter] at hstep
    cases hholder : s.holder with
    | some _ =>
      rw [hholder] at hstep
      cases hstep
    | none =>
      rw [hholder] at hstep
      cases hstep
      refine ⟨List.mem_append_right _ h.issued, h.traces, fun pc hpc => ?_⟩
      cases hpc
      exact fun pair hpair huuid => (hfresh pair hpair).2.2.1 (huuid ▸ h.issued)
  | revoke id' | delete id' | reconcile id' | startup => exact henter hstep trivial
  | returns =>
    obtain ⟨pc, hpc, rfl⟩ := Option.map_eq_some_iff.1 hstep
    exact h.advance hinv hpc
  | raises =>
    obtain ⟨pc, hpc, rfl⟩ := Option.map_eq_some_iff.1 hstep
    exact ⟨h.issued, h.traces, fun pc' hpc' => (h.spares pc hpc).raised hpc'⟩
  | die =>
    cases hstep
    exact ⟨h.issued, h.traces, fun _ hpc => absurd hpc.symm (Option.some_ne_none _)⟩

end

/-! ### Revocation is final -/

/-- No Xray key has been made yet; the inbounds may have clients of others. -/
structure NewInstallation (s : XrayService) : Prop where
  keys : s.db.keys = []
  issued : s.issued = []
  holder : s.holder = none

theorem inv_of_newInstallation (h : NewInstallation s) : Inv s := by
  have hkeys : ∀ key, key ∉ s.db.keys := by
    rw [h.keys]
    exact fun _ => List.not_mem_nil
  have hissued : ∀ uuid, uuid ∉ s.issued := by
    rw [h.issued]
    exact fun _ => List.not_mem_nil
  constructor
  · refine ⟨?_, fun key hkey => absurd hkey (hkeys key), fun uuid huuid => absurd huuid (hissued uuid),
      fun key hkey => absurd hkey (hkeys key), fun key hkey => absurd hkey (hkeys key),
      fun _ client _ huuid => absurd huuid (hissued client.id)⟩
    rw [h.keys]
    exact List.nodup_nil
  · intro pc hpc
    rw [h.holder] at hpc
    cases hpc

theorem Owned.run {id : ℕ} {uuid : Text} {revoked : Prop} (h : Owned id uuid revoked s) (hinv : Inv s)
    {actions : List OpAction} (hfresh : Allowed XrayService.step FreshUuids s actions)
    (hrun : runFrom XrayService.step s actions = some s') : Owned id uuid revoked s' ∧ Inv s' := by
  have hstep : ∀ m a m', Owned id uuid revoked m ∧ Inv m → FreshUuids m a →
      XrayService.step m a = some m' → Owned id uuid revoked m' ∧ Inv m' :=
    fun m a m' h ha hm => ⟨h.1.step h.2 ha hm, h.2.step ha hm⟩
  have h' := invariant_of_allowed hstep ⟨h, hinv⟩ hfresh hrun
  exact h'

/-- **Revocation is final.**  A key is in the table; later its row is revoked or gone.  Then no inbound
has a client with its UUID in any state from there on. -/
theorem revoked_is_final {start m₀ m s : XrayService} {before between after : List OpAction}
    (hstart : NewInstallation start)
    (hfresh : Allowed XrayService.step FreshUuids start (before ++ (between ++ after)))
    (h₀ : runFrom XrayService.step start before = some m₀) {key : VpnKey} (hkey : key ∈ m₀.db.keys)
    (hxray : key.keyType = .xray) (h₁ : runFrom XrayService.step m₀ between = some m)
    (hrevoked : ∀ row ∈ m.db.keys, row.id = key.id → row.status = .revoked)
    (h₂ : runFrom XrayService.step m after = some s) :
    ∀ t, ∀ client ∈ s.db.clients t, client.id ≠ key.uuid := by
  have hstep : ∀ m a m', Inv m → FreshUuids m a → XrayService.step m a = some m' → Inv m' :=
    fun m a m' h ha hm => h.step ha hm
  obtain ⟨hbefore, hrest⟩ := hfresh.append
  obtain ⟨hbetween, hafter⟩ := (hrest m₀ h₀).append
  have hinv₀ : Inv m₀ := invariant_of_allowed hstep (inv_of_newInstallation hstart) hbefore h₀
  obtain ⟨howned, hinv⟩ := (hinv₀.owned hkey hxray).run hinv₀ hbetween h₁
  obtain ⟨hfinal, -⟩ := (howned.revoke hinv hrevoked).run hinv (hafter m h₁) h₂
  exact hfinal.traces.absent trivial

/-- An installation without keys and clients. -/
def newService : XrayService := ⟨⟨[], fun _ => []⟩, 1, [], none⟩

def creatingKey : List OpAction :=
  .create .tcp "01ab".toList [("7d3f".toList, "xray_a1b2c".toList)] :: List.replicate 4 .returns

/-- The key is active, its revocation fails at the adapter once, then it is revoked. -/
def revokingKey : List OpAction :=
  [.revoke 1, .returns, .returns, .raises, .returns, .revoke 1, .returns, .returns, .returns, .returns]

/-- The service is started again. -/
def restarting : List OpAction := .startup :: List.replicate 11 .returns

/-- The row of the key once it is active. -/
def createdKey : VpnKey :=
  { pendingKey 1 .tcp "01ab".toList "7d3f".toList "xray_a1b2c".toList with status := .active }

theorem revoked_is_final_newService :
    ∃ m₀ s, runFrom XrayService.step newService creatingKey = some m₀ ∧
      (m₀.db.clients .tcp).map Client.id = [createdKey.uuid] ∧
      runFrom XrayService.step m₀ (revokingKey ++ restarting) = some s ∧
      ∀ t, ∀ client ∈ s.db.clients t, client.id ≠ createdKey.uuid := by
  have hcreated : (runFrom XrayService.step newService creatingKey).map (fun m₀ =>
      (m₀.db.keys, (m₀.db.clients .tcp).map Client.id)) = some ([createdKey], [createdKey.uuid]) := by
    decide +kernel
  obtain ⟨m₀, h₀, hm₀⟩ := Option.map_eq_some_iff.1 hcreated
  obtain ⟨hkeys, hclients⟩ := Prod.mk.inj hm₀
  have hrevoked : (runFrom XrayService.step newService (creatingKey ++ revokingKey)).map
      (fun m => m.db.keys.map VpnKey.status) = some [.revoked] := by decide +kernel
  obtain ⟨m, hm, hstatuses⟩ := Option.map_eq_some_iff.1 hrevoked
  have hrestarted : (runFrom XrayService.step newService
      (creatingKey ++ (revokingKey ++ restarting))).isSome = true := by decide +kernel
  obtain ⟨s, hs⟩ := Option.isSome_iff_exists.1 hrestarted
  have h₁ : runFrom XrayService.step m₀ revokingKey = some m := by
    obtain ⟨m', hm', h₁⟩ := runFrom_append.1 hm
    cases h₀.symm.trans hm'
    exact h₁
  have hrest : runFrom XrayService.step m₀ (revokingKey ++ restarting) = some s := by
    obtain ⟨m', hm', hrest⟩ := runFrom_append.1 hs
    cases h₀.symm.trans hm'
    exact hrest
  have h₂ : runFrom XrayService.step m restarting = some s := by
    obtain ⟨m', hm', h₂⟩ := runFrom_append.1 hrest
    cases h₁.symm.trans hm'
    exact h₂
  have hfresh : Allowed XrayService.step FreshUuids newService
      (creatingKey ++ (revokingKey ++ restarting)) := by
    refine ⟨fun pair hpair => ?_, fun s' _ => allowed_of_forall (fun a ha s => ?_) s'⟩
    · cases List.mem_singleton.1 hpair
      exact ⟨by decide, by decide, List.not_mem_nil, nofun⟩
    · have hplain : ∀ transport shortId candidates, a ≠ .create transport shortId candidates := by
        rintro transport shortId candidates rfl
        simp [revokingKey, restarting] at ha
      cases a with
      | create transport shortId candidates => exact absurd rfl (hplain transport shortId candidates)
      | _ => trivial
  have hkey : createdKey ∈ m₀.db.keys := hkeys ▸ List.mem_singleton.2 rfl
  have hrows : ∀ row ∈ m.db.keys, row.id = createdKey.id → row.status = .revoked := by
    intro row hrow _
    have hstatus := List.mem_map_of_mem (f := VpnKey.status) hrow
    rw [hstatuses] at hstatus
    exact List.mem_singleton.1 hstatus
  exact ⟨m₀, s, h₀, hclients, hrest,
    revoked_is_final ⟨rfl, rfl, rfl⟩ hfresh h₀ hkey rfl h₁ hrows h₂⟩

end VpnBot.Xray
