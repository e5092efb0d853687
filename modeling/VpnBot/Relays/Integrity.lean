import VpnBot.Relays.Service

/-!
# A key names a relay that exists

In every state that is reached from one in which it holds, each key outside of `deleted` that goes
through a relay names a row of `relays` (`relay_integrity`).  `Change` says what a step does to the two
tables; it is all that this needs.  That the panel gives no relay a name that a key carries rests on
the lock of the service as well: `Knows` is what the holder of the lock has found out and may rely on
until it inserts its row.
-/

namespace VpnBot.Relays

open Sys Py

/-! ### The statements -/

/-- A key that a relay must stand for. -/
def KeyRow.Live (key : KeyRow) : Prop := key.status ≠ .deleted

instance (key : KeyRow) : Decidable key.Live := inferInstanceAs (Decidable (_ ≠ _))

theorem mem_create {table table' : RelayTable} {name : Text} {fields : RelayFields}
    (h : table.create name fields = some table') {relay : Relay} :
    relay ∈ table'.rows ↔ relay ∈ table.rows ∨ relay = ⟨fields, table.seq, name⟩ := by
  unfold RelayTable.create at h
  split_ifs at h
  cases h
  exact List.mem_append.trans (or_congr_right List.mem_singleton)

theorem exists_mem_update {table table' : RelayTable} {id : ℕ} {fields : RelayFields}
    (h : table.update id fields = some table') (other : ℕ) (name : Text) :
    (∃ relay ∈ table'.rows, relay.id = other ∧ relay.name = name) ↔
      ∃ relay ∈ table.rows, relay.id = other ∧ relay.name = name := by
  unfold RelayTable.update at h
  split_ifs at h
  cases h
  have hpairs := RelayTable.map_setFields (fun relay => (relay.id, relay.name)) table.rows id fields
    fun _ => rfl
  have hiff : ∀ rows : List Relay, (∃ relay ∈ rows, relay.id = other ∧ relay.name = name) ↔
      (other, name) ∈ rows.map fun relay => (relay.id, relay.name) := by
    intro rows
    simp [List.mem_map]
  rw [hiff, hiff]
  exact iff_of_eq (congrArg _ hpairs)

theorem mem_deleteIfUnused {relays : RelayTable} {keys : KeyTable} {id : ℕ} {relay : Relay} :
    relay ∈ (deleteIfUnused relays keys id).rows ↔
      relay ∈ relays.rows ∧
        (relay.id = id → ∃ key ∈ keys.rows, key.relay = some relay.name ∧ key.Live) := by
  unfold deleteIfUnused RelayTable.filter KeyRow.Live
  rw [List.mem_filter]
  refine and_congr_right fun _ => ?_
  by_cases hid : relay.id = id <;> simp [hid]

theorem createPending_some {relays : RelayTable} {keys keys' : KeyTable} {keyType : VpnKeyType}
    {relay : Option Text} (h : createPending relays keys keyType relay = some keys') :
    keys' = keys.insert keyType relay ∧
      ∀ name, relay = some name → ∃ row ∈ relays.rows, row.name = name ∧ row.enabled = true := by
  cases relay with
  | none =>
    cases h
    exact ⟨rfl, nofun⟩
  | some name =>
    rw [createPending] at h
    split_ifs at h with hguard
    cases h
    refine ⟨rfl, fun name' hname => ?_⟩
    cases hname
    rw [Bool.and_eq_true, List.any_eq_true] at hguard
    obtain ⟨-, row, hrow, hmatch⟩ := hguard
    exact ⟨row, hrow, by simpa using hmatch⟩

theorem mem_setStatus {keys : KeyTable} {id : ℕ} {status : VpnKeyStatus} {key : KeyRow}
    (h : key ∈ (keys.setStatus id status).rows) :
    ∃ old ∈ keys.rows, old.id = key.id ∧ old.relay = key.relay ∧ (key.Live → old.Live) := by
  obtain ⟨old, hold, rfl⟩ := List.mem_map.1 h
  refine ⟨old, hold, ?_⟩
  split_ifs with hmatch
  · rw [Bool.and_eq_true] at hmatch
    exact ⟨rfl, rfl, fun _ => bne_iff_ne.1 hmatch.2⟩
  · exact ⟨rfl, rfl, fun hlive => hlive⟩

theorem mem_insert {keys : KeyTable} {keyType : VpnKeyType} {relay : Option Text} {key : KeyRow} :
    key ∈ (keys.insert keyType relay).rows ↔
      key ∈ keys.rows ∨ key = ⟨keys.seq, keyType, relay, .pendingApply⟩ :=
  List.mem_append.trans (or_congr_right List.mem_singleton)

/-! ### What a step does to the tables -/

/-- What a step may do to the tables. -/
inductive Change (s s' : System) : Prop
  | same (hrelays : s'.relays = s.relays) (hkeys : s'.keys = s.keys)
  | create (name : Text) (fields : RelayFields)
    (hrelays : s.relays.create name fields = some s'.relays) (hkeys : s'.keys = s.keys)
  | update (id : ℕ) (fields : RelayFields)
    (hrelays : s.relays.update id fields = some s'.relays) (hkeys : s'.keys = s.keys)
  | delete (id : ℕ) (hrelays : s'.relays = deleteIfUnused s.relays s.keys id)
    (hkeys : s'.keys = s.keys)
  | issue (keyType : VpnKeyType) (relay : Option Text) (hrelays : s'.relays = s.relays)
    (hkeys : createPending s.relays s.keys keyType relay = some s'.keys)
  | setStatus (id : ℕ) (status : VpnKeyStatus) (hrelays : s'.relays = s.relays)
    (hkeys : s'.keys = s.keys.setStatus id status)
  | hardDelete (id : ℕ) (hrelays : s'.relays = s.relays) (hkeys : s'.keys = s.keys.hardDelete id)

variable {s s' : System}

theorem change_advance (s : System) (pc : Pc) : Change s (s.advance pc).1 := by
  cases pc with
  | insert name fields =>
    rw [System.advance]
    split
    · next relays h => exact .create name fields h rfl
    · exact .same rfl rfl
  | seedInsert name host sourceIps =>
    rw [System.advance]
    split
    · next relays h => exact .create name _ h rfl
    · exact .same rfl rfl
  | updateWrite id fields =>
    rw [System.advance]
    split
    · next relays h => exact .update id fields h rfl
    · exact .same rfl rfl
  | updateRead id changes =>
    rw [System.advance]
    split
    · exact .same rfl rfl
    · dsimp only
      split_ifs <;> exact .same rfl rfl
  | deleteRead id withKeys =>
    rw [System.advance]
    split <;> exact .same rfl rfl
  | deleteKeys relay keys => cases keys <;> exact .same rfl rfl
  | deleteRow relay => exact .delete relay.id rfl rfl
  | nameTaken | nameUsed | labelTaken | updateLabel | listKeys | seedCount | refreshCatalog | leave =>
    exact .same rfl rfl

theorem Change.setTask (h : Change s s') (t : Task) (place : Place) :
    Change s (s'.setTask t place) := by
  cases h with
  | same hrelays hkeys => exact .same hrelays hkeys
  | create name fields hrelays hkeys => exact .create name fields hrelays hkeys
  | update id fields hrelays hkeys => exact .update id fields hrelays hkeys
  | delete id hrelays hkeys => exact .delete id hrelays hkeys
  | issue keyType relay hrelays hkeys => exact .issue keyType relay hrelays hkeys
  | setStatus id status hrelays hkeys => exact .setStatus id status hrelays hkeys
  | hardDelete id hrelays hkeys => exact .hardDelete id hrelays hkeys

theorem step_advance {t : Task} (h : step s (.advance t) = some s') :
    (∃ operation, s.tasks t = .wantLock operation ∧ s.lock = none ∧
        s' = { s.setTask t (.locked operation.start) with lock := some t }) ∨
      (s.tasks t = .locked .leave ∧ s' = s.release t) ∨
      (∃ pc, s.tasks t = .locked pc ∧
        s' = (s.advance pc).1.setTask t (.locked (s.advance pc).2)) ∨
      ∃ keyType relay, s.tasks t = .issuing keyType relay ∧
        s' = ({ s with
          keys := (createPending s.relays s.keys keyType relay).getD s.keys }.setTask t .idle) := by
  rw [step] at h
  cases hplace : s.tasks t with
  | idle =>
    rw [hplace] at h
    cases h
  | wantLock operation =>
    simp only [hplace] at h
    split_ifs at h with hlock
    cases h
    exact Or.inl ⟨operation, rfl, hlock, rfl⟩
  | locked pc =>
    by_cases hleave : pc = .leave
    · subst hleave
      simp only [hplace] at h
      cases h
      exact Or.inr (Or.inl ⟨rfl, rfl⟩)
    · refine Or.inr (Or.inr (Or.inl ⟨pc, rfl, ?_⟩))
      cases pc <;> simp only [hplace] at h <;> first | exact (Option.some.inj h).symm | exact absurd rfl hleave
  | issuing keyType relay =>
    simp only [hplace] at h
    cases h
    exact Or.inr (Or.inr (Or.inr ⟨keyType, relay, rfl, rfl⟩))

/-- What the failure of a call is. -/
theorem step_fail {t : Task} (h : step s (.fail t) = some s') :
    ((∃ pc, s.tasks t = .locked pc) ∧ s' = s.release t) ∨
      (∀ pc, s.tasks t ≠ .locked pc) ∧ s' = s.setTask t .idle := by
  rw [step] at h
  cases hplace : s.tasks t with
  | idle =>
    rw [hplace] at h
    cases h
  | locked pc =>
    simp only [hplace] at h
    cases h
    exact Or.inl ⟨⟨pc, rfl⟩, rfl⟩
  | wantLock operation =>
    simp only [hplace] at h
    cases h
    exact Or.inr ⟨by rintro _ ⟨⟩, rfl⟩
  | issuing keyType relay =>
    simp only [hplace] at h
    cases h
    exact Or.inr ⟨by rintro _ ⟨⟩, rfl⟩

theorem step_call {t : Task} {operation : Operation} (h : step s (.call t operation) = some s') :
    s' = s.setTask t (.wantLock operation) := by
  rw [step] at h
  split_ifs at h
  exact (Option.some.inj h).symm

theorem step_issue {t : Task} {keyType : VpnKeyType} {relay : Option Text}
    (h : step s (.issue t keyType relay) = some s') :
    ∃ name, s' = s.setTask t (.issuing keyType name) := by
  rw [step] at h
  cases hrequired : requireRelayForIssue s.catalog relay with
  | none => simp [hrequired] at h
  | some name =>
    simp only [hrequired] at h
    split_ifs at h
    exact ⟨name, (Option.some.inj h).symm⟩

/-- **What a step does to the tables.** -/
theorem change_step {a : Action} (h : step s a = some s') : Change s s' := by
  cases a with
  | call t operation =>
    rw [step_call h]
    exact .same rfl rfl
  | issue t keyType relay =>
    obtain ⟨name, rfl⟩ := step_issue h
    exact .same rfl rfl
  | advance t =>
    rcases step_advance h with ⟨_, -, -, rfl⟩ | ⟨-, rfl⟩ | ⟨pc, -, rfl⟩ | ⟨keyType, relay, -, rfl⟩
    · exact .same rfl rfl
    · exact .same rfl rfl
    · exact (change_advance s pc).setTask t _
    · cases hpending : createPending s.relays s.keys keyType relay with
      | none => exact .same rfl rfl
      | some keys => exact .issue keyType relay rfl hpending
  | fail t =>
    rcases step_fail h with ⟨-, rfl⟩ | ⟨-, rfl⟩ <;> exact .same rfl rfl
  | setStatus id status =>
    rw [step] at h
    split_ifs at h
    cases h
    exact .setStatus id status rfl rfl
  | hardDelete id =>
    cases h
    exact .hardDelete id rfl rfl
  | refresh | restart =>
    cases h
    exact .same rfl rfl

/-! ### Keys and relays across a step -/

/-- A key that is there after a step was there before, or has just been inserted, through an enabled
relay if through any. -/
theorem Change.key (h : Change s s') {key : KeyRow} (hkey : key ∈ s'.keys.rows) :
    (∃ old ∈ s.keys.rows, old.id = key.id ∧ old.relay = key.relay ∧ (key.Live → old.Live)) ∨
      key.id = s.keys.seq ∧ s'.relays = s.relays ∧
        ∀ name, key.relay = some name → ∃ row ∈ s.relays.rows, row.name = name ∧ row.enabled = true := by
  have hsame : s'.keys = s.keys →
      ∃ old ∈ s.keys.rows, old.id = key.id ∧ old.relay = key.relay ∧ (key.Live → old.Live) :=
    fun heq => ⟨key, heq ▸ hkey, rfl, rfl, fun hlive => hlive⟩
  cases h with
  | same _ hkeys | create _ _ _ hkeys | update _ _ _ hkeys | delete _ _ hkeys =>
    exact Or.inl (hsame hkeys)
  | issue keyType relay hrelays hkeys =>
    obtain ⟨hinsert, hrow⟩ := createPending_some hkeys
    rw [hinsert] at hkey
    rcases mem_insert.1 hkey with hold | rfl
    · exact Or.inl ⟨key, hold, rfl, rfl, fun hlive => hlive⟩
    · exact Or.inr ⟨rfl, hrelays, hrow⟩
  | setStatus id status _ hkeys =>
    rw [hkeys] at hkey
    exact Or.inl (mem_setStatus hkey)
  | hardDelete id' _ hkeys =>
    rw [hkeys] at hkey
    exact Or.inl ⟨key, List.mem_of_mem_filter hkey, rfl, rfl, fun hlive => hlive⟩

theorem Change.relay (h : Change s s') {relay : Relay} (hrelay : relay ∈ s.relays.rows) :
    (∃ kept ∈ s'.relays.rows, kept.id = relay.id ∧ kept.name = relay.name) ∨
      s'.keys = s.keys ∧ ∀ key ∈ s.keys.rows, key.Live → key.relay ≠ some relay.name := by
  have hsame : s'.relays = s.relays →
      ∃ kept ∈ s'.relays.rows, kept.id = relay.id ∧ kept.name = relay.name :=
    fun heq => ⟨relay, heq ▸ hrelay, rfl, rfl⟩
  cases h with
  | same hrelays _ | issue _ _ hrelays _ | setStatus _ _ hrelays _ | hardDelete _ hrelays _ =>
    exact Or.inl (hsame hrelays)
  | create name fields hrelays _ =>
    exact Or.inl ⟨relay, (mem_create hrelays).2 (Or.inl hrelay), rfl, rfl⟩
  | update id fields hrelays _ =>
    exact Or.inl ((exists_mem_update hrelays _ _).2 ⟨relay, hrelay, rfl, rfl⟩)
  | delete id hrelays hkeys =>
    rw [hrelays]
    by_cases hused : relay.id = id → ∃ key ∈ s.keys.rows, key.relay = some relay.name ∧ key.Live
    · exact Or.inl ⟨relay, mem_deleteIfUnused.2 ⟨hrelay, hused⟩, rfl, rfl⟩
    · push Not at hused
      exact Or.inr ⟨hkeys, fun key hkey hlive hnames => hused.2 key hkey hnames hlive⟩

theorem Change.seq_le (h : Change s s') : s.keys.seq ≤ s'.keys.seq := by
  cases h with
  | same _ hkeys | create _ _ _ hkeys | update _ _ _ hkeys | delete _ _ hkeys => rw [hkeys]
  | issue keyType relay _ hkeys =>
    rw [(createPending_some hkeys).1]
    exact Nat.le_succ _
  | setStatus id status _ hkeys | hardDelete id _ hkeys => rw [hkeys]; exact le_rfl

/-- Each live key through a relay names a row of `relays`. -/
def System.Named (s : System) : Prop :=
  ∀ key ∈ s.keys.rows, key.Live → ∀ name, key.relay = some name →
    ∃ relay ∈ s.relays.rows, relay.name = name

/-- **A step keeps the relay of every live key.** -/
theorem Change.named (h : Change s s') (hnamed : s.Named) : s'.Named := by
  intro key hkey hlive name hname
  rcases h.key hkey with ⟨old, hold, -, hrelay, hlive'⟩ | ⟨-, hrelays, hrow⟩
  · obtain ⟨relay, hmem, rfl⟩ := hnamed old hold (hlive' hlive) name (hrelay.trans hname)
    rcases h.relay hmem with ⟨kept, hkept, -, heq⟩ | ⟨-, hunused⟩
    · exact ⟨kept, hkept, heq⟩
    · exact absurd (hrelay.trans hname) (hunused old hold (hlive' hlive))
  · obtain ⟨row, hmem, heq, -⟩ := hrow name hname
    exact ⟨row, hrelays ▸ hmem, heq⟩

/-! ### The relay of an issued key -/

/-- The key with the id is in the table, outside of `deleted`. -/
def System.HasLive (s : System) (id : ℕ) : Prop := ∃ key ∈ s.keys.rows, key.id = id ∧ key.Live

/-- The step inserts a key through a relay. -/
structure Issues (s s' : System) (key : KeyRow) (relay : Relay) : Prop where
  relay_mem : relay ∈ s.relays.rows
  named : key.relay = some relay.name
  isNew : ∀ old ∈ s.keys.rows, old.id ≠ key.id
  mem : key ∈ s'.keys.rows

/-- The id is that of a key through the relay, which stands as long as that key does. -/
structure Stands (id relayId : ℕ) (name : Text) (s : System) : Prop where
  used : id < s.keys.seq
  named : ∀ key ∈ s.keys.rows, key.id = id → key.relay = some name
  stands : s.HasLive id → ∃ relay ∈ s.relays.rows, relay.id = relayId ∧ relay.name = name

variable {id relayId : ℕ} {name : Text}

/-- **A relay is not taken from under a key.** -/
theorem Change.stands (h : Change s s') (hstands : Stands id relayId name s) :
    Stands id relayId name s' where
  used := hstands.used.trans_le h.seq_le
  named key hkey hid := by
    rcases h.key hkey with ⟨old, hold, hid', hrelay, -⟩ | ⟨hnew, -⟩
    · exact hrelay ▸ hstands.named old hold (hid'.trans hid)
    · exact absurd hstands.used (by omega)
  stands := by
    rintro ⟨key, hkey, hid, hlive⟩
    rcases h.key hkey with ⟨old, hold, hid', -, hlive'⟩ | ⟨hnew, -⟩
    · have hold_id : old.id = id := hid'.trans hid
      obtain ⟨relay, hmem, hrelayId, hname⟩ := hstands.stands ⟨old, hold, hold_id, hlive' hlive⟩
      rcases h.relay hmem with ⟨kept, hkept, hkeptId, hkeptName⟩ | ⟨-, hunused⟩
      · exact ⟨kept, hkept, hkeptId.trans hrelayId, hkeptName.trans hname⟩
      · refine absurd ?_ (hunused old hold (hlive' hlive))
        rw [hname]
        exact hstands.named old hold hold_id
    · exact absurd hstands.used (by omega)

theorem Change.stands_of_issues (h : Change s s') {key : KeyRow} {relay : Relay}
    (hissues : Issues s s' key relay) : Stands key.id relay.id relay.name s' := by
  rcases h.key hissues.mem with ⟨old, hold, hid, -⟩ | ⟨hseq, hrelays, -⟩
  · exact absurd hid (hissues.isNew old hold)
  refine ⟨s'.keys.fresh key hissues.mem, fun other hother hid => ?_,
    fun _ => ⟨relay, hrelays ▸ hissues.relay_mem, rfl, rfl⟩⟩
  cases h with
  | issue keyType name _ hkeys =>
    have hinsert := (createPending_some hkeys).1
    have hrow : ∀ row ∈ s'.keys.rows, row.id = s.keys.seq →
        row = ⟨s.keys.seq, keyType, name, .pendingApply⟩ := by
      intro row hrow hid'
      rw [hinsert] at hrow
      rcases mem_insert.1 hrow with hold | rfl
      · exact absurd hid' (s.keys.fresh row hold).ne
      · rfl
    rw [hrow other hother (hid.trans hseq), ← hissues.named, hrow key hissues.mem hseq]
  | same _ hkeys | create _ _ _ hkeys | update _ _ _ hkeys | delete _ _ hkeys =>
    exact absurd rfl (hissues.isNew key (hkeys ▸ hissues.mem))
  | setStatus _ _ _ hkeys =>
    have hmem := hissues.mem
    rw [hkeys] at hmem
    obtain ⟨old, hold, hid', -⟩ := mem_setStatus hmem
    exact absurd hid' (hissues.isNew old hold)
  | hardDelete _ _ hkeys =>
    have hmem := hissues.mem
    rw [hkeys] at hmem
    exact absurd rfl (hissues.isNew key (List.mem_of_mem_filter hmem))

/-! ### What the holder of the lock knows -/

/-- No relay has the name, and no key carries it. -/
structure Unused (relays : RelayTable) (keys : KeyTable) (name : Text) : Prop where
  relay : ∀ relay ∈ relays.rows, relay.name ≠ name
  key : ∀ key ∈ keys.rows, key.relay ≠ some name

/-- What a call of `create` has found out on its way to the `INSERT`. -/
def Pc.Knows (relays : RelayTable) (keys : KeyTable) : Pc → Prop
  | .nameUsed name _ => ∀ relay ∈ relays.rows, relay.name ≠ name
  | .labelTaken name _ | .insert name _ => Unused relays keys name
  | _ => True

theorem Change.knows (h : Change s s') (hrelays : s'.relays = s.relays) {pc : Pc}
    (hknows : pc.Knows s.relays s.keys) : pc.Knows s'.relays s'.keys := by
  have hunused : ∀ {name}, Unused s.relays s.keys name → Unused s'.relays s'.keys name := by
    intro name hunused
    refine ⟨hrelays ▸ hunused.relay, fun key hkey hname => ?_⟩
    rcases h.key hkey with ⟨old, hold, -, hrelay, -⟩ | ⟨-, -, hrow⟩
    · exact hunused.key old hold (hrelay.trans hname)
    · obtain ⟨row, hmem, heq, -⟩ := hrow name hname
      exact hunused.relay row hmem heq
  cases pc with
  | nameUsed name fields =>
    show ∀ relay ∈ s'.relays.rows, relay.name ≠ name
    rw [hrelays]
    exact hknows
  | labelTaken | insert => exact hunused hknows
  | _ => trivial

theorem knows_advance {pc : Pc} (hknows : pc.Knows s.relays s.keys) :
    (s.advance pc).2.Knows (s.advance pc).1.relays (s.advance pc).1.keys := by
  cases pc with
  | nameTaken name fields =>
    rw [System.advance]
    dsimp only
    split_ifs with htaken
    · trivial
    · intro relay hrelay hname
      exact htaken (List.any_eq_true.2 ⟨relay, hrelay, decide_eq_true hname⟩)
  | nameUsed name fields =>
    rw [System.advance]
    dsimp only
    split_ifs with hused
    · trivial
    · refine ⟨hknows, fun key hkey hname => ?_⟩
      exact hused (List.any_eq_true.2 ⟨key, hkey, decide_eq_true hname⟩)
  | labelTaken name fields =>
    rw [System.advance]
    dsimp only
    split_ifs
    · trivial
    · exact hknows
  | insert | seedInsert =>
    rw [System.advance]
    split <;> trivial
  | updateWrite | updateRead | deleteRead =>
    rw [System.advance]
    split <;> dsimp only <;> try split_ifs
    all_goals trivial
  | updateLabel | seedCount | deleteRow =>
    rw [System.advance]
    dsimp only
    split_ifs <;> trivial
  | deleteKeys relay keys => cases keys <;> trivial
  | listKeys | refreshCatalog | leave => trivial

/-- The lock is held by the task that is inside it, and that task knows what it has found out. -/
structure Exclusive (s : System) : Prop where
  lock : ∀ t pc, s.tasks t = .locked pc → s.lock = some t
  knows : ∀ t pc, s.tasks t = .locked pc → pc.Knows s.relays s.keys

theorem Exclusive.outside (h : Exclusive s) (hchange : Change s s')
    (hrelays : s'.relays = s.relays) (hlock : s'.lock = s.lock)
    (htasks : ∀ t pc, s'.tasks t = .locked pc → s.tasks t = .locked pc) : Exclusive s' where
  lock t pc ht := hlock.trans (h.lock t pc (htasks t pc ht))
  knows t pc ht := hchange.knows hrelays (h.knows t pc (htasks t pc ht))

theorem Exclusive.inside {t : Task} {pc : Pc} (hlock : s'.lock = some t)
    (htasks : s'.tasks = Function.update s.tasks t (.locked pc))
    (hothers : ∀ u pc, u ≠ t → s.tasks u ≠ .locked pc) (hknows : pc.Knows s'.relays s'.keys) :
    Exclusive s' := by
  have honly : ∀ u pc', s'.tasks u = .locked pc' → u = t ∧ pc' = pc := by
    intro u pc' hu
    rw [htasks] at hu
    by_cases hut : u = t
    · subst hut
      rw [Function.update_self] at hu
      exact ⟨rfl, (Place.locked.inj hu).symm⟩
    · rw [Function.update_of_ne hut] at hu
      exact absurd hu (hothers u pc' hut)
  refine ⟨fun u pc' hu => ?_, fun u pc' hu => ?_⟩
  · rw [(honly u pc' hu).1]
    exact hlock
  · rw [(honly u pc' hu).2]
    exact hknows

theorem locked_of_update {t u : Task} {place : Place} {pc : Pc} (hplace : place ≠ .locked pc)
    (hu : Function.update s.tasks t place u = .locked pc) : u ≠ t ∧ s.tasks u = .locked pc := by
  by_cases hut : u = t
  · subst hut
    rw [Function.update_self] at hu
    exact absurd hu hplace
  · rw [Function.update_of_ne hut] at hu
    exact ⟨hut, hu⟩

theorem Exclusive.release (h : Exclusive s) {t : Task} {pc : Pc} (ht : s.tasks t = .locked pc) :
    Exclusive (s.release t) := by
  have hnone : ∀ u pc, (s.release t).tasks u ≠ .locked pc := by
    intro u pc' hu
    obtain ⟨hut, hold⟩ := locked_of_update (by simp) hu
    exact hut (Option.some.inj ((h.lock u pc' hold).symm.trans (h.lock t pc ht)))
  exact ⟨fun u pc hu => absurd hu (hnone u pc), fun u pc hu => absurd hu (hnone u pc)⟩

theorem lock_advance (s : System) (pc : Pc) :
    (s.advance pc).1.lock = s.lock ∧ (s.advance pc).1.tasks = s.tasks := by
  cases pc with
  | deleteKeys relay keys => cases keys <;> exact ⟨rfl, rfl⟩
  | insert | seedInsert | updateWrite | updateRead | deleteRead =>
    rw [System.advance]
    split <;> dsimp only <;> try split_ifs
    all_goals exact ⟨rfl, rfl⟩
  | _ => exact ⟨rfl, rfl⟩

theorem knows_start (operation : Operation) (relays : RelayTable) (keys : KeyTable) :
    operation.start.Knows relays keys := by
  cases operation <;> trivial

/-- **A step keeps the lock with one task, and what that task knows true.** -/
theorem Exclusive.step (h : Exclusive s) {a : Action} (hstep : step s a = some s') :
    Exclusive s' := by
  have hchange := change_step hstep
  cases a with
  | call t operation =>
    rw [step_call hstep] at hchange ⊢
    exact h.outside hchange rfl rfl fun u pc hu => (locked_of_update (by simp) hu).2
  | issue t keyType relay =>
    obtain ⟨name, rfl⟩ := step_issue hstep
    exact h.outside hchange rfl rfl fun u pc hu => (locked_of_update (by simp) hu).2
  | advance t =>
    rcases step_advance hstep with ⟨operation, -, hfree, rfl⟩ | ⟨hplace, rfl⟩ | ⟨pc, hplace, rfl⟩ |
      ⟨keyType, relay, -, rfl⟩
    · refine Exclusive.inside rfl rfl (fun u pc _ hu => ?_) (knows_start operation _ _)
      exact nomatch hfree.symm.trans (h.lock u pc hu)
    · exact h.release hplace
    · obtain ⟨hlock, htasks⟩ := lock_advance s pc
      refine Exclusive.inside (hlock.trans (h.lock t pc hplace)) (congrArg (Function.update · t _) htasks)
        (fun u pc' hut hu => ?_) (knows_advance (h.knows t pc hplace))
      exact hut (Option.some.inj ((h.lock u pc' hu).symm.trans (h.lock t pc hplace)))
    · exact h.outside hchange rfl rfl fun u pc hu => (locked_of_update (by simp) hu).2
  | fail t =>
    rcases step_fail hstep with ⟨⟨pc, hplace⟩, rfl⟩ | ⟨-, rfl⟩
    · exact h.release hplace
    · exact h.outside hchange rfl rfl fun u pc hu => (locked_of_update (by simp) hu).2
  | setStatus id status =>
    rw [VpnBot.Relays.step] at hstep
    split_ifs at hstep
    cases hstep
    exact h.outside hchange rfl rfl fun _ _ hu => hu
  | hardDelete | refresh =>
    cases hstep
    exact h.outside hchange rfl rfl fun _ _ hu => hu
  | restart =>
    cases hstep
    have hnone : ∀ (t : Task) (pc : Pc), (fun _ => Place.idle) t ≠ .locked pc := fun _ _ => nofun
    exact ⟨fun t pc ht => absurd ht (hnone t pc), fun t pc ht => absurd ht (hnone t pc)⟩

/-! ### Relays and keys in every run -/

/-- The step is the `INSERT` of the seed. -/
def System.Seeds (s : System) (a : Action) : Prop :=
  ∃ t name host sourceIps, a = .advance t ∧ s.tasks t = .locked (.seedInsert name host sourceIps)

/-- What a new key finds, what a deleted relay leaves, and which name a new relay gets. -/
structure Sound (s : System) (a : Action) (s' : System) : Prop where
  issued : ∀ key ∈ s'.keys.rows, (∀ old ∈ s.keys.rows, old.id ≠ key.id) →
    ∀ name, key.relay = some name →
      ∃ relay ∈ s'.relays.rows, relay.name = name ∧ relay.enabled = true
  deleted : ∀ relay ∈ s.relays.rows, (∀ kept ∈ s'.relays.rows, kept.id ≠ relay.id) →
    ∀ key ∈ s'.keys.rows, key.Live → key.relay ≠ some relay.name
  created : ∀ relay ∈ s'.relays.rows, (∀ old ∈ s.relays.rows, old.id ≠ relay.id) →
    s.Seeds a ∨ ∀ key ∈ s'.keys.rows, key.relay ≠ some relay.name

theorem created_advance {pc : Pc} {relay : Relay} (hrelay : relay ∈ (s.advance pc).1.relays.rows)
    (hnew : ∀ old ∈ s.relays.rows, old.id ≠ relay.id) :
    (∃ fields, pc = .insert relay.name fields) ∨
      ∃ name host sourceIps, pc = .seedInsert name host sourceIps := by
  have hsame : (s.advance pc).1.relays ≠ s.relays := by
    intro heq
    exact hnew relay (heq ▸ hrelay) rfl
  cases pc with
  | insert name fields =>
    rw [System.advance] at hrelay
    split at hrelay
    · next relays h =>
      rcases (mem_create h).1 hrelay with hold | rfl
      · exact absurd rfl (hnew relay hold)
      · exact Or.inl ⟨fields, rfl⟩
    · exact absurd rfl (hnew relay hrelay)
  | seedInsert name host sourceIps => exact Or.inr ⟨name, host, sourceIps, rfl⟩
  | updateWrite id fields =>
    rw [System.advance] at hrelay
    split at hrelay
    · next relays h =>
      obtain ⟨old, hold, hid, -⟩ := (exists_mem_update h _ _).1 ⟨relay, hrelay, rfl, rfl⟩
      exact absurd hid (hnew old hold)
    · exact absurd rfl (hnew relay hrelay)
  | deleteRow other => exact absurd rfl (hnew relay (mem_deleteIfUnused.1 hrelay).1)
  | updateRead | deleteRead =>
    refine absurd ?_ hsame
    rw [System.advance]
    split <;> dsimp only <;> try split_ifs
    all_goals rfl
  | deleteKeys relay keys => cases keys <;> exact absurd rfl hsame
  | _ => exact absurd rfl hsame

/-- **The panel gives no relay a name that a key carries.** -/
theorem Exclusive.created (h : Exclusive s) {a : Action} (hstep : VpnBot.Relays.step s a = some s')
    {relay : Relay} (hrelay : relay ∈ s'.relays.rows)
    (hnew : ∀ old ∈ s.relays.rows, old.id ≠ relay.id) :
    s.Seeds a ∨ ∀ key ∈ s'.keys.rows, key.relay ≠ some relay.name := by
  have hsame : s'.relays ≠ s.relays := by
    intro heq
    exact hnew relay (heq ▸ hrelay) rfl
  cases a with
  | call t operation =>
    rw [step_call hstep] at hsame
    exact absurd rfl hsame
  | issue t keyType name =>
    obtain ⟨_, rfl⟩ := step_issue hstep
    exact absurd rfl hsame
  | advance t =>
    rcases step_advance hstep with ⟨_, -, -, rfl⟩ | ⟨-, rfl⟩ | ⟨pc, hplace, rfl⟩ | ⟨_, _, -, rfl⟩
    · exact absurd rfl hsame
    · exact absurd rfl hsame
    · rcases created_advance hrelay hnew with ⟨fields, rfl⟩ | ⟨name, host, sourceIps, rfl⟩
      · have hunused : Unused s.relays s.keys relay.name := h.knows t _ hplace
        have hkeys : (s.advance (.insert relay.name fields)).1.keys = s.keys := by
          rw [System.advance]
          split <;> rfl
        refine Or.inr fun key hkey => ?_
        exact hunused.key key (hkeys ▸ hkey)
      · exact Or.inl ⟨t, name, host, sourceIps, rfl, hplace⟩
    · exact absurd rfl hsame
  | fail t =>
    rcases step_fail hstep with ⟨-, rfl⟩ | ⟨-, rfl⟩ <;> exact absurd rfl hsame
  | setStatus id status =>
    rw [VpnBot.Relays.step] at hstep
    split_ifs at hstep
    cases hstep
    exact absurd rfl hsame
  | hardDelete | refresh | restart =>
    cases hstep
    exact absurd rfl hsame

theorem Exclusive.sound (h : Exclusive s) {a : Action} (hstep : VpnBot.Relays.step s a = some s') :
    Sound s a s' where
  issued key hkey hnew name hname := by
    rcases (change_step hstep).key hkey with ⟨old, hold, hid, -⟩ | ⟨-, hrelays, hrow⟩
    · exact absurd hid (hnew old hold)
    · rw [hrelays]
      exact hrow name hname
  deleted relay hrelay hgone key hkey hlive hname := by
    rcases (change_step hstep).relay hrelay with ⟨kept, hkept, hid, -⟩ | ⟨hkeys, hunused⟩
    · exact hgone kept hkept hid
    · exact hunused key (hkeys ▸ hkey) hlive hname
  created relay hrelay hnew := h.created hstep hrelay hnew

theorem exclusive_of_fresh (hfresh : s.Fresh) : Exclusive s :=
  have hnone : ∀ t pc, s.tasks t ≠ .locked pc := fun t pc ht => by
    rw [hfresh.tasks t] at ht
    cases ht
  ⟨fun t pc ht => absurd ht (hnone t pc), fun t pc ht => absurd ht (hnone t pc)⟩

theorem keeps_of_runFrom {inv : System → Prop}
    (hstep : ∀ m a m', inv m → step m a = some m' → inv m') {actions : List Action}
    (hs : inv s) (hrun : runFrom step s actions = some s') : inv s' := by
  have h := invariant_of_allowed (fun m a m' hm _ => hstep m a m' hm) hs
    (allowed_of_forall (fun _ _ _ => trivial) s) hrun
  exact h

/-- **Every live key through a relay names a relay**, in every run from a state in which it does.  A
new key finds its relay enabled, a deleted relay leaves no live key, and a name that a key carries is
given to no relay but by the seed; and the row of the relay through which a key was issued is not
deleted while that key lives, so that of the two at most one stays. -/
theorem relay_integrity {start : System} (hfresh : start.Fresh) (hnamed : start.Named) :
    (∀ actions s, runFrom step start actions = some s →
      s.Named ∧ ∀ a s', step s a = some s' → Sound s a s') ∧
    ∀ before m a m' key relay after s, runFrom step start before = some m → step m a = some m' →
      Issues m m' key relay → runFrom step m' after = some s → s.HasLive key.id →
        ∃ kept ∈ s.relays.rows, kept.id = relay.id := by
  constructor
  · intro actions s hrun
    have hexclusive := keeps_of_runFrom (fun m a m' hm => Exclusive.step hm)
      (exclusive_of_fresh hfresh) hrun
    have hnamedStep : ∀ m a m', System.Named m → step m a = some m' → System.Named m' :=
      fun m a m' hm hstep => (change_step hstep).named hm
    exact ⟨keeps_of_runFrom hnamedStep hnamed hrun, fun a s' hstep => hexclusive.sound hstep⟩
  · intro before m a m' key relay after s _ hstep hissues hafter hlive
    have hstands := (change_step hstep).stands_of_issues hissues
    have hlast := keeps_of_runFrom (fun m a m' hm hstep => (change_step hstep).stands hm) hstands
      hafter
    obtain ⟨kept, hkept, hid, -⟩ := hlast.stands hlive
    exact ⟨kept, hkept, hid⟩

/-- The relay of the example. -/
def ru1 : Relay := ⟨seedFields "relay.example".toList "192.0.2.1".toList, 1, "ru1".toList⟩

/-- A database with one relay, and a process that has just been started. -/
def oneRelay : System where
  relays := ⟨[ru1], 2, by decide, by decide, by decide, by decide⟩
  keys := ⟨[], 1, by decide⟩
  catalog := []
  lock := none
  tasks := fun _ => .idle

/-- The relay is about to be deleted while a key is about to be issued through it. -/
def beforeIssue : List Action :=
  [.refresh, .issue 0 .xray (some "ru1".toList), .call 1 (.delete 1 false), .advance 1, .advance 1]

/-- The key is inserted first: the relay stays. -/
theorem relay_integrity_issueFirst :
    ∃ s, runFrom step oneRelay (beforeIssue ++ [.advance 0, .advance 1, .advance 1]) = some s ∧
      s.Named ∧ s.lock = none ∧ ∃ kept ∈ s.relays.rows, kept.id = ru1.id := by
  have hfresh : oneRelay.Fresh := ⟨fun _ => rfl, rfl⟩
  have hnamed : oneRelay.Named := by rintro _ ⟨⟩
  obtain ⟨hruns, hissued⟩ := relay_integrity hfresh hnamed
  have hissues : ∀ m m' : System, m.relays.rows = [ru1] → m.keys.rows = [] →
      m'.keys.rows = [⟨1, .xray, some "ru1".toList, .pendingApply⟩] →
      Issues m m' ⟨1, .xray, some "ru1".toList, .pendingApply⟩ ru1 := by
    intro m m' hrelays hkeys hkeys'
    refine ⟨by rw [hrelays]; exact List.mem_singleton.2 rfl, rfl, ?_,
      by rw [hkeys']; exact List.mem_singleton.2 rfl⟩
    rw [hkeys]
    nofun
  refine ⟨_, rfl, (hruns (beforeIssue ++ [.advance 0, .advance 1, .advance 1]) _ rfl).1, rfl, ?_⟩
  exact hissued beforeIssue _ (.advance 0) _ _ ru1 [.advance 1, .advance 1] _ rfl rfl
    (hissues _ _ rfl rfl rfl) rfl ⟨_, List.mem_singleton.2 rfl, rfl, nofun⟩

end VpnBot.Relays
