import Mathlib.Data.List.Nodup
import Mathlib.Logic.Function.Basic
import VpnBot.Keys.VpnKey
import VpnBot.Python.Text
import VpnBot.System.Run

/-!
# Relays and the keys through them

`RelayService` of `src/services/relay_management.py`, the statements of `src/repositories/relays.py`
that it makes, and `create_pending` of `src/repositories/vpn_keys.py`.  A row of `vpn_keys` names its
relay; there is no foreign key, so what names what is kept by two guarded statements and by the lock
of the service.

`step` is one call that a task awaits, or one write to a row of `vpn_keys` by the other services.  A
statement is one step, since the database serves one writer until its commit.  A call may end with an
exception or with the cancellation of its task (`fail`), and the process may die (`restart`).

Not modelled: the roles of the actors, the audit log, the columns of a key that no relay query reads,
and the parsers of the fields of a relay other than its name, which run before the lock is taken.  No
operation gives a key the status `deleted`; the delete path of a key whose row has it from an older
version is left out.
-/

namespace VpnBot.Relays

open Sys Py

abbrev Task := ℕ

/-! ### The tables -/

/-- What an administrator can change of a relay. -/
structure RelayFields where
  label : Text
  host : Text
  sourceIps : Text
  enabled : Bool
  inSubscriptions : Bool
  note : Option Text
  deriving DecidableEq

/-- A row of `relays`. -/
structure Relay extends RelayFields where
  id : ℕ
  name : Text
  deriving DecidableEq

/-- The table `relays`: `id` counts up, `name` and `label` are unique. -/
structure RelayTable where
  rows : List Relay
  seq : ℕ
  fresh : ∀ relay ∈ rows, relay.id < seq
  ids : (rows.map Relay.id).Nodup
  names : (rows.map Relay.name).Nodup
  labels : (rows.map fun relay => relay.label).Nodup

/-- A row of `vpn_keys`. -/
structure KeyRow where
  id : ℕ
  keyType : VpnKeyType
  relay : Option Text
  status : VpnKeyStatus
  deriving DecidableEq

/-- The table `vpn_keys`: `id` counts up. -/
structure KeyTable where
  rows : List KeyRow
  seq : ℕ
  fresh : ∀ key ∈ rows, key.id < seq

namespace RelayTable

/-- `get_by_id`. -/
def getById (table : RelayTable) (id : ℕ) : Option Relay :=
  table.rows.find? fun relay => relay.id = id

/-- `get_by_name` finds a row. -/
def nameTaken (table : RelayTable) (name : Text) : Bool :=
  table.rows.any fun relay => relay.name = name

/-- `get_by_label` finds a row with another id. -/
def labelTaken (table : RelayTable) (label : Text) (exclude : Option ℕ) : Bool :=
  table.rows.any fun relay => relay.label = label && some relay.id != exclude

/-- `create`: the `INSERT`; `none` is the `IntegrityError` of a `UNIQUE` column. -/
def create (table : RelayTable) (name : Text) (fields : RelayFields) : Option RelayTable :=
  if h : name ∉ table.rows.map Relay.name ∧
      fields.label ∉ table.rows.map fun relay => relay.label then
    some {
      rows := table.rows ++ [⟨fields, table.seq, name⟩]
      seq := table.seq + 1
      fresh := by
        intro relay hrelay
        rcases List.mem_append.1 hrelay with hold | hnew
        · exact (table.fresh relay hold).trans (Nat.lt_succ_self _)
        · rw [List.mem_singleton.1 hnew]
          exact Nat.lt_succ_self _
      ids := by
        rw [List.map_append, List.map_singleton, ← List.concat_eq_append]
        refine List.Nodup.concat (fun hmem => ?_) table.ids
        obtain ⟨relay, hrelay, hid⟩ := List.mem_map.1 hmem
        exact (table.fresh relay hrelay).ne hid
      names := by
        rw [List.map_append, List.map_singleton, ← List.concat_eq_append]
        exact List.Nodup.concat h.1 table.names
      labels := by
        rw [List.map_append, List.map_singleton, ← List.concat_eq_append]
        exact List.Nodup.concat h.2 table.labels }
  else none

/-- The rows with the fields of one of them replaced. -/
def setFields (rows : List Relay) (id : ℕ) (fields : RelayFields) : List Relay :=
  rows.map fun relay => if relay.id = id then { relay with toRelayFields := fields } else relay

theorem map_setFields {α : Type} (column : Relay → α) (rows : List Relay) (id : ℕ)
    (fields : RelayFields)
    (h : ∀ relay : Relay, column { relay with toRelayFields := fields } = column relay) :
    (setFields rows id fields).map column = rows.map column := by
  unfold setFields
  rw [List.map_map]
  refine List.map_congr_left fun relay _ => ?_
  show column (if relay.id = id then _ else relay) = column relay
  split_ifs
  · exact h relay
  · rfl

/-- `update`: the `UPDATE`; `none` is the `IntegrityError` of the column `label`. -/
def update (table : RelayTable) (id : ℕ) (fields : RelayFields) : Option RelayTable :=
  if h : ((setFields table.rows id fields).map fun relay => relay.label).Nodup then
    some {
      rows := setFields table.rows id fields
      seq := table.seq
      fresh := by
        intro relay hrelay
        have hid : relay.id ∈ table.rows.map Relay.id := by
          rw [← map_setFields Relay.id table.rows id fields fun _ => rfl]
          exact List.mem_map_of_mem hrelay
        obtain ⟨old, hold, heq⟩ := List.mem_map.1 hid
        exact heq ▸ table.fresh old hold
      ids := by
        rw [map_setFields Relay.id _ _ _ fun _ => rfl]
        exact table.ids
      names := by
        rw [map_setFields Relay.name _ _ _ fun _ => rfl]
        exact table.names
      labels := h }
  else none

/-- The rows that meet a condition. -/
def filter (table : RelayTable) (p : Relay → Bool) : RelayTable where
  rows := table.rows.filter p
  seq := table.seq
  fresh relay hrelay := table.fresh relay (List.mem_of_mem_filter hrelay)
  ids := table.ids.sublist (List.filter_sublist.map _)
  names := table.names.sublist (List.filter_sublist.map _)
  labels := table.labels.sublist (List.filter_sublist.map _)

end RelayTable

namespace KeyTable

/-- `name_used_by_keys`: some row, in whatever status, names the relay. -/
def nameUsedByKeys (keys : KeyTable) (name : Text) : Bool :=
  keys.rows.any fun key => key.relay = some name

/-- `list_keys`: the keys through the relay outside of `deleted`. -/
def listKeys (keys : KeyTable) (name : Text) : List KeyRow :=
  keys.rows.filter fun key => key.relay = some name && key.status != .deleted

/-- The `INSERT` of a key. -/
def insert (keys : KeyTable) (keyType : VpnKeyType) (relay : Option Text) : KeyTable where
  rows := keys.rows ++ [⟨keys.seq, keyType, relay, .pendingApply⟩]
  seq := keys.seq + 1
  fresh key hkey := by
    rcases List.mem_append.1 hkey with hold | hnew
    · exact (keys.fresh key hold).trans (Nat.lt_succ_self _)
    · rw [List.mem_singleton.1 hnew]
      exact Nat.lt_succ_self _

/-- `set_status`, `mark_active` and `mark_revoked` on a row that they match. -/
def setStatus (keys : KeyTable) (id : ℕ) (status : VpnKeyStatus) : KeyTable where
  rows := keys.rows.map fun key =>
    if key.id = id && key.status != .deleted then { key with status := status } else key
  seq := keys.seq
  fresh key hkey := by
    obtain ⟨old, hold, rfl⟩ := List.mem_map.1 hkey
    split_ifs <;> exact keys.fresh old hold

/-- `hard_delete_with_stats`. -/
def hardDelete (keys : KeyTable) (id : ℕ) : KeyTable where
  rows := keys.rows.filter fun key => key.id != id
  seq := keys.seq
  fresh key hkey := keys.fresh key (List.mem_of_mem_filter hkey)

end KeyTable

/-- `delete_if_unused`: the row goes only if no key outside of `deleted` names it. -/
def deleteIfUnused (relays : RelayTable) (keys : KeyTable) (id : ℕ) : RelayTable :=
  relays.filter fun relay =>
    !(relay.id = id && !keys.rows.any fun key =>
      key.relay = some relay.name && key.status != .deleted)

/-- `RELAY_NAME_PATTERN`: `^[a-z0-9][a-z0-9-]{0,31}$`. -/
def isRelayName (name : Text) : Bool :=
  match name with
  | [] => false
  | c :: rest =>
    (c.isLower || c.isDigit) && decide (rest.length ≤ 31) &&
      rest.all fun c => c.isLower || c.isDigit || c == '-'

/-- `create_pending`: the `INSERT` of a key through a relay selects nothing unless the relay exists and
is enabled; `none` is the `RelayUnavailable` or the `ValueError` of a malformed name. -/
def createPending (relays : RelayTable) (keys : KeyTable) (keyType : VpnKeyType) :
    Option Text → Option KeyTable
  | none => some (keys.insert keyType none)
  | some name =>
    if isRelayName name && relays.rows.any fun relay => relay.name = name && relay.enabled then
      some (keys.insert keyType (some name))
    else none

/-! ### The operations of the service -/

/-- The `changes` of an update: the new values of the fields that were passed. -/
structure Changes where
  label : Option Text
  host : Option Text
  sourceIps : Option Text
  enabled : Option Bool
  inSubscriptions : Option Bool
  note : Option (Option Text)
  deriving DecidableEq

/-- The fields after the changes. -/
def Changes.apply (changes : Changes) (fields : RelayFields) : RelayFields where
  label := changes.label.getD fields.label
  host := changes.host.getD fields.host
  sourceIps := changes.sourceIps.getD fields.sourceIps
  enabled := changes.enabled.getD fields.enabled
  inSubscriptions := changes.inSubscriptions.getD fields.inSubscriptions
  note := changes.note.getD fields.note

/-- A call of the service, its arguments parsed. -/
inductive Operation
  | create (name : Text) (fields : RelayFields)
  | update (id : ℕ) (changes : Changes)
  | delete (id : ℕ) (withKeys : Bool)
  /-- `seed_from_settings` with a `relay_seed`. -/
  | seed (name host sourceIps : Text)
  deriving DecidableEq

/-- Where a task is that holds the lock: what it awaits next. -/
inductive Pc
  /-- In `_ensure_name_free`. -/
  | nameTaken (name : Text) (fields : RelayFields)
  | nameUsed (name : Text) (fields : RelayFields)
  | labelTaken (name : Text) (fields : RelayFields)
  | insert (name : Text) (fields : RelayFields)
  | updateRead (id : ℕ) (changes : Changes)
  | updateLabel (id : ℕ) (fields : RelayFields)
  | updateWrite (id : ℕ) (fields : RelayFields)
  | deleteRead (id : ℕ) (withKeys : Bool)
  | listKeys (relay : Relay)
  /-- In the deleter of the first key. -/
  | deleteKeys (relay : Relay) (keys : List KeyRow)
  | deleteRow (relay : Relay)
  | seedCount (name host sourceIps : Text)
  | seedInsert (name host sourceIps : Text)
  /-- Audits a write, then replaces the snapshot. -/
  | refreshCatalog
  /-- Returns or raises, and releases the lock. -/
  | leave
  deriving DecidableEq

/-- Where a task is. -/
inductive Place
  | idle
  /-- In `async with self._lock`. -/
  | wantLock (operation : Operation)
  | locked (pc : Pc)
  /-- A key service between `require_relay_for_issue` and `create_pending`. -/
  | issuing (keyType : VpnKeyType) (relay : Option Text)
  deriving DecidableEq

/-- The tables, the snapshot of the process, the lock of the service and the tasks. -/
structure System where
  relays : RelayTable
  keys : KeyTable
  catalog : List Relay
  lock : Option Task
  tasks : Task → Place

/-- `relay_available`: the snapshot has the relay, enabled and with a host. -/
def relayAvailable (catalog : List Relay) (name : Text) : Bool :=
  match catalog.find? fun relay => relay.name = name with
  | some relay => relay.enabled && !relay.host.isEmpty
  | none => false

/-- `require_relay_for_issue`: the relay of a new key; `none` is the `RelayUnavailable`. -/
def requireRelayForIssue (catalog : List Relay) : Option Text → Option (Option Text)
  | none => some none
  | some name =>
    if name.isEmpty then some none
    else if relayAvailable catalog name then some (some name)
    else none

/-- What a call does before it waits for the lock: `parse_relay_name` refuses a malformed name. -/
def Operation.parses : Operation → Bool
  | .create name _ => isRelayName name
  | .update .. | .delete .. | .seed .. => true

/-- The first call inside the lock. -/
def Operation.start : Operation → Pc
  | .create name fields => .nameTaken name fields
  | .update id changes => .updateRead id changes
  | .delete id withKeys => .deleteRead id withKeys
  | .seed name host sourceIps => .seedCount name host sourceIps

def seedFields (host sourceIps : Text) : RelayFields where
  label := "relay".toList
  host := host
  sourceIps := sourceIps
  enabled := true
  inSubscriptions := true
  note := none

namespace System

/-- The task `t` moved. -/
def setTask (s : System) (t : Task) (place : Place) : System :=
  { s with tasks := Function.update s.tasks t place }

/-- The call that `pc` stands for has returned: the state, and what is awaited next. -/
def advance (s : System) : Pc → System × Pc
  | .nameTaken name fields =>
    (s, if s.relays.nameTaken name then .leave else .nameUsed name fields)
  | .nameUsed name fields =>
    (s, if s.keys.nameUsedByKeys name then .leave else .labelTaken name fields)
  | .labelTaken name fields =>
    (s, if s.relays.labelTaken fields.label none then .leave else .insert name fields)
  | .insert name fields =>
    match s.relays.create name fields with
    | some relays => ({ s with relays := relays }, .refreshCatalog)
    | none => (s, .leave)
  | .updateRead id changes =>
    match s.relays.getById id with
    | none => (s, .leave)
    | some before =>
      let after := changes.apply before.toRelayFields
      if after.label ≠ before.label then (s, .updateLabel id after)
      else if after = before.toRelayFields then (s, .leave)
      else (s, .updateWrite id after)
  | .updateLabel id fields =>
    (s, if s.relays.labelTaken fields.label (some id) then .leave else .updateWrite id fields)
  | .updateWrite id fields =>
    match s.relays.update id fields with
    | some relays =>
      ({ s with relays := relays }, if (relays.getById id).isSome then .refreshCatalog else .leave)
    | none => (s, .leave)
  | .deleteRead id withKeys =>
    match s.relays.getById id with
    | none => (s, .leave)
    | some relay => (s, if withKeys then .listKeys relay else .deleteRow relay)
  | .listKeys relay => (s, .deleteKeys relay (s.keys.listKeys relay.name))
  | .deleteKeys relay [] => (s, .deleteRow relay)
  | .deleteKeys relay (_ :: rest) => (s, .deleteKeys relay rest)
  | .deleteRow relay =>
    let relays := deleteIfUnused s.relays s.keys relay.id
    ({ s with relays := relays },
      if relays.rows.length = s.relays.rows.length then .leave else .refreshCatalog)
  | .seedCount name host sourceIps =>
    (s, if s.relays.rows.length = 0 then .seedInsert name host sourceIps else .leave)
  | .seedInsert name host sourceIps =>
    match s.relays.create name (seedFields host sourceIps) with
    | some relays => ({ s with relays := relays }, .refreshCatalog)
    | none => (s, .leave)
  | .refreshCatalog => ({ s with catalog := s.relays.rows }, .leave)
  | .leave => (s, .leave)

/-- The task leaves `async with self._lock`. -/
def release (s : System) (t : Task) : System :=
  { s.setTask t .idle with lock := none }

end System

/-- What happens next. -/
inductive Action
  /-- An operation of the service is called. -/
  | call (t : Task) (operation : Operation)
  /-- A key service has checked the relay of a new key. -/
  | issue (t : Task) (keyType : VpnKeyType) (relay : Option Text)
  /-- The call that a task awaits returns. -/
  | advance (t : Task)
  /-- It raises, or the task is cancelled. -/
  | fail (t : Task)
  /-- A key service, a deleter of a relay's keys among them, writes a status. -/
  | setStatus (id : ℕ) (status : VpnKeyStatus)
  /-- A key service removes a row. -/
  | hardDelete (id : ℕ)
  /-- `refresh_catalog` at the start of the process. -/
  | refresh
  /-- The process dies and is started again. -/
  | restart
  deriving DecidableEq

/-- One step; a new operation is begun by a task that is idle. -/
def step (s : System) : Action → Option System
  | .call t operation =>
    if s.tasks t = .idle ∧ operation.parses then some (s.setTask t (.wantLock operation)) else none
  | .issue t keyType relay =>
    if s.tasks t = .idle then
      match requireRelayForIssue s.catalog relay with
      | some relay => some (s.setTask t (.issuing keyType relay))
      | none => none
    else none
  | .advance t =>
    match s.tasks t with
    | .idle => none
    | .wantLock operation =>
      if s.lock = none then
        some { s.setTask t (.locked operation.start) with lock := some t }
      else none
    | .locked .leave => some (s.release t)
    | .locked pc => some ((s.advance pc).1.setTask t (.locked (s.advance pc).2))
    | .issuing keyType relay =>
      some ({ s with
        keys := (createPending s.relays s.keys keyType relay).getD s.keys }.setTask t .idle)
  | .fail t =>
    match s.tasks t with
    | .idle => none
    | .wantLock _ | .issuing .. => some (s.setTask t .idle)
    | .locked _ => some (s.release t)
  | .setStatus id status =>
    if status = .deleted then none else some { s with keys := s.keys.setStatus id status }
  | .hardDelete id => some { s with keys := s.keys.hardDelete id }
  | .refresh => some { s with catalog := s.relays.rows }
  | .restart => some { s with catalog := [], lock := none, tasks := fun _ => .idle }

/-- A process that has just been started. -/
structure System.Fresh (s : System) : Prop where
  tasks : ∀ t, s.tasks t = .idle
  lock : s.lock = none

end VpnBot.Relays
