import VpnBot.Xray.Reconcile

/-!
# What the passes of the Xray reconcile do

Each pass in closed form.  The removing passes only restrict the client lists (`restrict`), so their
order does not matter; the first pass also settles the status of each key (`settle`), and the last
one appends a client for a key for which none is found (`restored`).
-/

namespace VpnBot.Xray

open Py Sys

/-! ### Restricting the client lists -/

namespace XrayState

/-- The state with the clients that pass the test only. -/
def restrict (s : XrayState) (p : Transport → Client → Bool) : XrayState :=
  { s with clients := fun t => (s.clients t).filter (p t) }

@[simp] theorem restrict_keys (s : XrayState) (p : Transport → Client → Bool) :
    (s.restrict p).keys = s.keys := rfl

@[simp] theorem restrict_clients (s : XrayState) (p : Transport → Client → Bool) (t : Transport) :
    (s.restrict p).clients t = (s.clients t).filter (p t) := rfl

theorem restrict_restrict (s : XrayState) (p q : Transport → Client → Bool) :
    (s.restrict p).restrict q = s.restrict fun t c => p t c && q t c := by
  simp only [restrict, List.filter_filter, Bool.and_comm]

theorem restrict_eq_self {s : XrayState} {p : Transport → Client → Bool}
    (h : ∀ t, ∀ c ∈ s.clients t, p t c = true) : s.restrict p = s := by
  have hclients : (fun t => (s.clients t).filter (p t)) = s.clients :=
    funext fun t => List.filter_eq_self.2 (h t)
  rw [restrict, hclients]

theorem removeClient_eq (t : Transport) (uuid email : Text) (s : XrayState) :
    s.removeClient t uuid email =
      s.restrict fun t' c => !(t' = t && matchesRemove uuid email c) := by
  have hclients : ∀ t', (if t' = t then (s.clients t).filter fun c => !matchesRemove uuid email c
      else s.clients t') = (s.clients t').filter fun c => !(t' = t && matchesRemove uuid email c) := by
    intro t'
    by_cases h : t' = t
    · subst h
      simp
    · simp [h]
  simp only [removeClient, setClients, restrict, hclients]

end XrayState

theorem matchesFind_of_matchesRemove {uuid email : Text} {c : Client}
    (h : matchesRemove uuid email c = true) : matchesFind uuid email c = true := by
  rw [matchesRemove] at h
  rw [matchesFind, Bool.or_eq_true]
  split at h
  · next huuid =>
    refine Or.inl ?_
    rw [huuid, h]
    rfl
  · exact Or.inr h

/-- Removing the access of a key removes the client from the inbound of its transport. -/
def VpnKey.removes (key : VpnKey) (t : Transport) (c : Client) : Bool :=
  t = key.transport && matchesRemove key.uuid key.emailLabel c

theorem removeXrayAccess_eq (key : VpnKey) (s : XrayState) :
    removeXrayAccess key s = s.restrict fun t c => !key.removes t c :=
  s.removeClient_eq key.transport key.uuid key.emailLabel

/-! ### The first pass -/

/-- The access of the key is removed in the first pass. -/
def VpnKey.closing (key : VpnKey) : Bool :=
  key.keyType = .xray &&
    (key.status = .pendingRevoke || key.status = .pendingDelete || key.status = .deleteFailed)

/-- The row is not deleted in the first pass. -/
def VpnKey.survives (key : VpnKey) : Bool :=
  !(key.keyType = .xray && (key.status = .pendingDelete || key.status = .deleteFailed))

/-- A key is active, or it waits to become active and a client is found for it: one with its UUID or
its email label on the inbound of its transport that no earlier key takes away. -/
def XrayState.Live (s : XrayState) (key : VpnKey) : Prop :=
  key.status = .active ∨
    (key.status = .pendingApply ∨ key.status = .applyFailed) ∧
      ∃ c ∈ s.clients key.transport, matchesFind key.uuid key.emailLabel c = true ∧
        ∀ earlier ∈ s.keys, earlier.id < key.id → earlier.closing = true →
          earlier.removes key.transport c = false

instance (s : XrayState) (key : VpnKey) : Decidable (s.Live key) := by
  unfold XrayState.Live
  infer_instance

/-- The status of a key after the first pass. -/
def XrayState.settledStatus (s : XrayState) (key : VpnKey) : VpnKeyStatus :=
  if key.keyType = .xray then
    match key.status with
    | .pendingApply | .applyFailed => if s.Live key then .active else .applyFailed
    | .pendingRevoke => .revoked
    | status => status
  else key.status

/-- The row of a key after the first pass. -/
def XrayState.settle (s : XrayState) (key : VpnKey) : VpnKey :=
  { key with status := s.settledStatus key }

/-- The rows that are left after the first pass. -/
def XrayState.remaining (s : XrayState) : List VpnKey := s.keys.filter VpnKey.survives

/-- The rows are in the order of their ids. -/
def XrayState.InOrder (s : XrayState) : Prop := s.keys.Pairwise fun key key' => key.id < key'.id

section FirstPass

variable {s : XrayState} {done rest : List VpnKey} {key : VpnKey}

@[simp] theorem settle_id (key : VpnKey) : (s.settle key).id = key.id := rfl

/-- The state of the first pass when the keys in `done` have had their turn. -/
def stage (s : XrayState) (done rest : List VpnKey) : XrayState where
  keys := (done.filter VpnKey.survives).map s.settle ++ rest
  clients t := (s.clients t).filter fun c => !(done.any fun k => k.closing && k.removes t c)

theorem settle_eq_self (h : s.settledStatus key = key.status) : s.settle key = key := by
  rw [XrayState.settle, h]

theorem stage_append_of_not_closing (hsurvives : key.survives = true)
    (hclosing : key.closing = false) :
    stage s (done ++ [key]) rest =
      { stage s done (key :: rest) with
        keys := (done.filter VpnKey.survives).map s.settle ++ s.settle key :: rest } := by
  simp [stage, hsurvives, hclosing]

/-- Only the row of the key has its id. -/
structure AtTurn (s : XrayState) (done : List VpnKey) (key : VpnKey) (rest : List VpnKey) : Prop where
  keys : s.keys = done ++ key :: rest
  before : ∀ earlier ∈ done, earlier.id < key.id
  after : ∀ later ∈ rest, key.id < later.id

namespace AtTurn

theorem of_inOrder (h : s.InOrder) (hkeys : s.keys = done ++ key :: rest) :
    AtTurn s done key rest := by
  rw [XrayState.InOrder, hkeys, List.pairwise_append, List.pairwise_cons] at h
  exact ⟨hkeys, fun earlier he => h.2.2 earlier he key List.mem_cons_self, h.2.1.1⟩

theorem ne_of_mem (h : AtTurn s done key rest) : ∀ k ∈ (done.filter VpnKey.survives).map s.settle, k.id ≠ key.id := by
  intro k hk
  obtain ⟨earlier, he, rfl⟩ := List.mem_map.1 hk
  exact (h.before earlier (List.mem_filter.1 he).1).ne

theorem updateKey (h : AtTurn s done key rest) (f : VpnKey → VpnKey) :
    (stage s done (key :: rest)).updateKey key.id f =
      { stage s done (key :: rest) with
        keys := (done.filter VpnKey.survives).map s.settle ++ f key :: rest } := by
  have hbefore : ((done.filter VpnKey.survives).map s.settle).map
      (fun k => if k.id = key.id then f k else k) = (done.filter VpnKey.survives).map s.settle :=
    (List.map_congr_left fun k hk => if_neg (h.ne_of_mem k hk)).trans (List.map_id _)
  have hafter : rest.map (fun k => if k.id = key.id then f k else k) = rest :=
    (List.map_congr_left fun k hk => if_neg (h.after k hk).ne').trans (List.map_id _)
  simp only [XrayState.updateKey, stage, List.map_append, List.map_cons, hbefore, hafter, if_true]

theorem hardDelete (h : AtTurn s done key rest) :
    (stage s done (key :: rest)).hardDelete key.id =
      { stage s done (key :: rest) with
        keys := (done.filter VpnKey.survives).map s.settle ++ rest } := by
  have hbefore : ((done.filter VpnKey.survives).map s.settle).filter (fun k => k.id ≠ key.id) =
      (done.filter VpnKey.survives).map s.settle :=
    List.filter_eq_self.2 fun k hk => decide_eq_true (h.ne_of_mem k hk)
  have hafter : rest.filter (fun k => k.id ≠ key.id) = rest :=
    List.filter_eq_self.2 fun k hk => decide_eq_true (h.after k hk).ne'
  simp only [XrayState.hardDelete, stage, List.filter_append, List.filter_cons, hbefore, hafter]
  simp

theorem mem_done_iff (h : AtTurn s done key rest) {k : VpnKey} :
    k ∈ done ↔ k ∈ s.keys ∧ k.id < key.id := by
  rw [h.keys]
  constructor
  · exact fun hk => ⟨List.mem_append_left _ hk, h.before k hk⟩
  · rintro ⟨hk, hlt⟩
    rcases List.mem_append.1 hk with hk | hk
    · exact hk
    · rcases List.mem_cons.1 hk with rfl | hk
      · exact absurd hlt (lt_irrefl _)
      · exact absurd hlt (h.after k hk).asymm

/-- A client is found for a waiting key just when it is going to be active. -/
theorem isSome_findClient_iff (h : AtTurn s done key rest)
    (hstatus : key.status = .pendingApply ∨ key.status = .applyFailed) :
    ((stage s done (key :: rest)).findClient key.transport key.uuid key.emailLabel).isSome = true ↔
      s.Live key := by
  have hinactive : key.status ≠ .active := by
    rcases hstatus with hs | hs <;> rw [hs] <;> decide
  rw [XrayState.findClient, List.find?_isSome]
  constructor
  · rintro ⟨c, hc, hfind⟩
    obtain ⟨hmem, hkept⟩ := List.mem_filter.1 hc
    refine Or.inr ⟨hstatus, c, hmem, hfind, fun earlier he hlt hclosing => ?_⟩
    have hdone : earlier ∈ done := h.mem_done_iff.2 ⟨he, hlt⟩
    rw [Bool.not_eq_true', List.any_eq_false] at hkept
    simpa [hclosing] using hkept earlier hdone
  · rintro (hactive | ⟨-, c, hc, hfind, hkept⟩)
    · exact absurd hactive hinactive
    · refine ⟨c, List.mem_filter.2 ⟨hc, ?_⟩, hfind⟩
      rw [Bool.not_eq_true', List.any_eq_false]
      intro k hk
      obtain ⟨hmem, hlt⟩ := h.mem_done_iff.1 hk
      cases hclosing : k.closing with
      | false => simp
      | true => simp [hkept k hmem hlt hclosing]

theorem stage_skip (hskip : ¬ (key.keyType = .xray ∧ startupReconcileStatuses key.status = true)) :
    stage s done (key :: rest) = stage s (done ++ [key]) rest := by
  have hsettle : s.settle key = key := by
    refine settle_eq_self ?_
    rw [XrayState.settledStatus]
    cases hk : key.status <;> simp_all [startupReconcileStatuses]
  have hsurvives : key.survives = true := by
    rw [VpnKey.survives]
    cases hk : key.status <;> simp_all [startupReconcileStatuses]
  have hclosing : key.closing = false := by
    rw [VpnKey.closing]
    cases hk : key.status <;> simp_all [startupReconcileStatuses]
  rw [stage_append_of_not_closing hsurvives hclosing, hsettle]
  rfl

theorem stage_waiting (h : AtTurn s done key rest) (hxray : key.keyType = .xray)
    (hstatus : key.status = .pendingApply ∨ key.status = .applyFailed) :
    startupReconcileKey (stage s done (key :: rest)) key = stage s (done ++ [key]) rest := by
  have hsurvives : key.survives = true := by
    rcases hstatus with hs | hs <;> simp [VpnKey.survives, hs]
  have hclosing : key.closing = false := by
    rcases hstatus with hs | hs <;> simp [VpnKey.closing, hs]
  have hsettle : s.settle key = { key with status := if s.Live key then .active else .applyFailed } := by
    rcases hstatus with hs | hs <;> simp [XrayState.settle, XrayState.settledStatus, hxray, hs]
  have hfind := h.isSome_findClient_iff hstatus
  rw [stage_append_of_not_closing hsurvives hclosing, hsettle]
  by_cases hlive : s.Live key
  · obtain ⟨c, hc⟩ := Option.isSome_iff_exists.1 (hfind.2 hlive)
    have hturn : startupReconcileKey (stage s done (key :: rest)) key =
        (stage s done (key :: rest)).markActive key.id := by
      rcases hstatus with hs | hs <;> simp only [startupReconcileKey, hs, hc]
    rw [hturn, XrayState.markActive, h.updateKey, if_pos hlive, if_pos hstatus]
  · have hnone : (stage s done (key :: rest)).findClient key.transport key.uuid key.emailLabel =
        none := by
      rw [← Option.not_isSome_iff_eq_none, hfind]
      exact hlive
    rw [if_neg hlive]
    rcases hstatus with hs | hs
    · simp only [startupReconcileKey, hs, hnone]
      rw [XrayState.setStatus, h.updateKey]
    · have hself : { key with status := .applyFailed } = key := by
        rw [← hs]
      simp only [startupReconcileKey, hs, hnone, hself]
      rfl

theorem stage_closing (h : AtTurn s done key rest) (hxray : key.keyType = .xray)
    (hstatus : key.status = .pendingRevoke ∨ key.status = .pendingDelete ∨
      key.status = .deleteFailed) :
    startupReconcileKey (stage s done (key :: rest)) key = stage s (done ++ [key]) rest := by
  have hclosing : key.closing = true := by
    rcases hstatus with hs | hs | hs <;> simp [VpnKey.closing, hxray, hs]
  have hremove : ∀ keys, { stage s done (key :: rest) with keys := keys }.restrict
      (fun t c => !key.removes t c) = { stage s (done ++ [key]) rest with keys := keys } := by
    intro keys
    simp [stage, XrayState.restrict, List.filter_filter, hclosing, Bool.and_comm]
  have hdelete : key.survives = false → startupReconcileKey (stage s done (key :: rest)) key =
      (removeXrayAccess key (stage s done (key :: rest))).hardDelete key.id →
      startupReconcileKey (stage s done (key :: rest)) key = stage s (done ++ [key]) rest := by
    intro hsurvives hturn
    rw [hturn, removeXrayAccess_eq]
    change ((stage s done (key :: rest)).hardDelete key.id).restrict _ = _
    rw [h.hardDelete, hremove]
    simp [stage, hsurvives]
  rcases hstatus with hs | hs | hs
  · have hsurvives : key.survives = true := by simp [VpnKey.survives, hs]
    have hsettle : s.settle key = { key with status := .revoked } := by
      simp [XrayState.settle, XrayState.settledStatus, hxray, hs]
    have hturn : startupReconcileKey (stage s done (key :: rest)) key =
        ((stage s done (key :: rest)).markRevoked key.id).restrict
          fun t c => !key.removes t c := by
      simp only [startupReconcileKey, hs, removeXrayAccess_eq]
      rfl
    rw [hturn, XrayState.markRevoked, h.updateKey, if_neg (by simp [hs]), hremove]
    simp [stage, hsurvives, hsettle]
  · exact hdelete (by simp [VpnKey.survives, hxray, hs]) (by simp only [startupReconcileKey, hs])
  · exact hdelete (by simp [VpnKey.survives, hxray, hs]) (by simp only [startupReconcileKey, hs])

end AtTurn

/-- **The first pass**: each key is settled, and the clients of the closing keys go. -/
theorem startupReconcileKeys_eq (h : s.InOrder) :
    startupReconcileKeys s = stage s s.keys [] := by
  -- the keys in `done` have had their turn, the keys in `rest` wait for it
  have hrun : ∀ done rest, s.keys = done ++ rest →
      (rest.filter fun key => key.keyType = .xray && startupReconcileStatuses key.status).foldl
        startupReconcileKey (stage s done rest) = stage s s.keys [] := by
    intro done rest
    induction rest generalizing done with
    | nil =>
      intro hkeys
      rw [List.append_nil] at hkeys
      rw [hkeys]
      rfl
    | cons key rest ih =>
      intro hkeys
      have hturn := AtTurn.of_inOrder h hkeys
      have hnext := ih (done ++ [key]) (by rw [hkeys, List.append_assoc]; rfl)
      by_cases hstep : key.keyType = .xray ∧ startupReconcileStatuses key.status = true
      · have hpos : (key.keyType = .xray && startupReconcileStatuses key.status) = true := by
          simpa using hstep
        rw [List.filter_cons, if_pos hpos, List.foldl_cons]
        have hkey : startupReconcileKey (stage s done (key :: rest)) key =
            stage s (done ++ [key]) rest := by
          obtain ⟨hxray, hstatus⟩ := hstep
          cases hs : key.status with
          | pendingApply => exact hturn.stage_waiting hxray (Or.inl hs)
          | applyFailed => exact hturn.stage_waiting hxray (Or.inr hs)
          | pendingRevoke => exact hturn.stage_closing hxray (Or.inl hs)
          | pendingDelete => exact hturn.stage_closing hxray (Or.inr (Or.inl hs))
          | deleteFailed => exact hturn.stage_closing hxray (Or.inr (Or.inr hs))
          | active | revoked | deleted | failed => rw [hs] at hstatus; cases hstatus
        rw [hkey, hnext]
      · have hneg : ¬ (key.keyType = .xray && startupReconcileStatuses key.status) = true := by
          simpa using hstep
        rw [List.filter_cons, if_neg hneg, AtTurn.stage_skip hstep, hnext]
  have hinitial : stage s [] s.keys = s := by simp [stage]
  have := hrun [] s.keys rfl
  rwa [hinitial] at this

end FirstPass

/-! ### The drift passes -/

/-- One of the keys removes the client. -/
def removedBy (keys : List VpnKey) (t : Transport) (c : Client) : Bool :=
  keys.any fun key => key.removes t c

theorem removeNonLiveXrayClient_eq {s : XrayState} {key : VpnKey} (h : key.status ≠ .active) :
    removeNonLiveXrayClient s key = s.restrict fun t c => !key.removes t c := by
  rw [removeNonLiveXrayClient, if_neg h]
  cases hfind : s.findClient key.transport key.uuid key.emailLabel with
  | some c => exact removeXrayAccess_eq key s
  | none =>
    refine (XrayState.restrict_eq_self fun t c hc => ?_).symm
    rw [Bool.not_eq_true', VpnKey.removes, Bool.and_eq_false_iff]
    by_cases ht : t = key.transport
    · subst ht
      have hnot := List.find?_eq_none.1 hfind c hc
      exact Or.inr (Bool.eq_false_iff.2 fun hr => hnot (matchesFind_of_matchesRemove hr))
    · exact Or.inl (decide_eq_false ht)

/-- **The second pass**: keys that are not live lose their clients. -/
theorem removeNonLiveXrayClients_eq (keys : List VpnKey) (s : XrayState) :
    removeNonLiveXrayClients keys s =
      s.restrict fun t c => !removedBy (keys.filter fun key => key.status ≠ .active) t c := by
  induction keys generalizing s with
  | nil =>
    rw [XrayState.restrict_eq_self]
    · rfl
    · exact fun t c _ => rfl
  | cons key keys ih =>
    rw [removeNonLiveXrayClients, List.foldl_cons]
    change removeNonLiveXrayClients keys _ = _
    by_cases hactive : key.status = .active
    · rw [removeNonLiveXrayClient, if_pos hactive, ih]
      simp [hactive]
    · rw [removeNonLiveXrayClient_eq hactive, ih, XrayState.restrict_restrict]
      simp [removedBy, hactive]

/-- The keys that are not live have no clients. -/
def XrayState.NonLiveCleared (s : XrayState) : Prop :=
  ∀ key ∈ s.keys, key.keyType = .xray → key.status ≠ .active →
    ∀ t, ∀ c ∈ s.clients t, key.removes t c = false

theorem XrayState.NonLiveCleared.restrict {s : XrayState} (h : s.NonLiveCleared)
    (p : Transport → Client → Bool) : (s.restrict p).NonLiveCleared :=
  fun key hkey hxray hstatus t c hc => h key hkey hxray hstatus t c (List.mem_filter.1 hc).1

theorem mem_of_historical {uuid email : Text} {s : XrayState} {historical : VpnKey}
    (h : findXrayHistoricalOwner uuid email s = some historical) :
    historical ∈ s.keys ∧ historical.keyType = .xray := by
  rw [findXrayHistoricalOwner, Option.filter_eq_some_iff] at h
  obtain ⟨hfound, hxray⟩ := h
  refine ⟨?_, of_decide_eq_true hxray⟩
  cases huuid : (if uuid.isEmpty then none else s.findByUuid uuid) with
  | some key =>
    rw [huuid] at hfound
    cases hfound
    split at huuid
    · cases huuid
    · exact List.mem_of_find?_eq_some huuid
  | none =>
    rw [huuid] at hfound
    simp only at hfound
    split at hfound
    · cases hfound
    · exact List.mem_of_find?_eq_some hfound

/-- A client that belongs to no key: its UUID and its email are those of no active key, and no row
has them. -/
def orphan (activeKeys : List VpnKey) (rows : List VpnKey) (c : Client) : Bool :=
  !ownedByActiveKey activeKeys (strip c.id) (strip c.email) &&
    (findXrayHistoricalOwner (strip c.id) (strip c.email) ⟨rows, fun _ => []⟩).isNone

/-- An orphan in the list takes the client with it. -/
def takenByOrphan (activeKeys rows : List VpnKey) (l : List Client) (c : Client) : Bool :=
  l.any fun c' => orphan activeKeys rows c' && matchesRemove (strip c'.id) (strip c'.email) c

theorem orphan_eq (activeKeys : List VpnKey) (s : XrayState) (c : Client) :
    orphan activeKeys s.keys c = (!ownedByActiveKey activeKeys (strip c.id) (strip c.email) &&
      (findXrayHistoricalOwner (strip c.id) (strip c.email) s).isNone) := rfl

theorem ends_removeOrDegradeXrayOrphans (t : Transport) (activeKeys : List VpnKey)
    (l : List Client) {s : XrayState} (h : s.NonLiveCleared) :
    Program.Ends (removeOrDegradeXrayOrphans t activeKeys l)
      (fun failed s' => failed = 0 →
        s' = s.restrict fun t' c => !(t' = t && takenByOrphan activeKeys s.keys l c))
      (fun _ _ => False) s := by
  induction l generalizing s with
  | nil =>
    intro _
    refine (XrayState.restrict_eq_self fun t' c _ => ?_).symm
    simp [takenByOrphan]
  | cons client l ih =>
    -- a client that is not an orphan takes nothing
    have hskip : orphan activeKeys s.keys client = false →
        Program.Ends (removeOrDegradeXrayOrphans t activeKeys l)
          (fun failed s' => failed = 0 →
            s' = s.restrict fun t' c => !(t' = t && takenByOrphan activeKeys s.keys (client :: l) c))
          (fun _ _ => False) s := by
      intro horphan
      refine (ih h).mono (fun failed s' hs hf => ?_) fun _ _ hf => hf
      rw [hs hf]
      simp only [takenByOrphan, List.any_cons, horphan, Bool.false_and, Bool.false_or]
    rw [removeOrDegradeXrayOrphans]
    by_cases howned : ownedByActiveKey activeKeys (strip client.id) (strip client.email) = true
    · rw [if_pos howned]
      exact hskip (by rw [orphan_eq, howned]; rfl)
    · rw [if_neg howned, Program.ends_bind, Program.ends_get]
      cases hfind : findXrayHistoricalOwner (strip client.id) (strip client.email) s with
      | some historical =>
        have horphan : orphan activeKeys s.keys client = false := by
          rw [orphan_eq, hfind, Option.isNone_some, Bool.and_false]
        by_cases hactive : historical.status = .active
        · simp only [if_pos hactive]
          exact hskip horphan
        · -- the client of a key that is not live is gone already
          obtain ⟨hmem, hxray⟩ := mem_of_historical hfind
          have hgone : removeXrayAccess historical s = s := by
            rw [removeXrayAccess_eq]
            refine XrayState.restrict_eq_self fun t' c hc => ?_
            rw [h historical hmem hxray hactive t' c hc]
            rfl
          simp only [if_neg hactive]
          rw [Program.ends_bind, Program.ends_modify, hgone]
          exact hskip horphan
      | none =>
        have horphan : orphan activeKeys s.keys client = true := by
          rw [orphan_eq, hfind, Bool.eq_false_iff.2 howned]
          rfl
        by_cases hmanaged : isManagedLabel (strip client.email) = true
        · simp only [if_pos hmanaged]
          rw [Program.ends_bind, Program.ends_modify, XrayState.removeClient_eq]
          refine (ih (h.restrict _)).mono (fun failed s' hs hf => ?_) fun _ _ hf => hf
          rw [hs hf, XrayState.restrict_restrict, XrayState.restrict_keys]
          congr 1
          funext t' c
          simp only [takenByOrphan, List.any_cons, horphan, Bool.true_and, Bool.and_or_distrib_left,
            Bool.not_or]
        · simp only [if_neg hmanaged]
          exact fun hf => absurd hf (by decide)

/-- The orphans of an inbound are taken. -/
def withoutOrphans (activeKeys rows : List VpnKey) (l : List Client) : List Client :=
  l.filter fun c => !takenByOrphan activeKeys rows l c

theorem ends_removeOrphansOf (activeKeys : List VpnKey) {s : XrayState} (h : s.NonLiveCleared) :
    Program.Ends (removeOrphansOf activeKeys [.tcp, .http])
      (fun failed s' => failed = 0 → s'.keys = s.keys ∧
        ∀ t, s'.clients t = withoutOrphans activeKeys s.keys (s.clients t))
      (fun _ _ => False) s := by
  rw [removeOrphansOf, Program.ends_bind, Program.ends_get, Program.ends_bind]
  refine (ends_removeOrDegradeXrayOrphans .tcp activeKeys (s.clients .tcp) h).mono
    (fun failed s₁ hs₁ => ?_) fun _ _ hf => hf
  by_cases hf : failed = 0
  · obtain rfl := hs₁ hf
    rw [if_pos hf, removeOrphansOf, Program.ends_bind, Program.ends_get, Program.ends_bind]
    refine (ends_removeOrDegradeXrayOrphans .http activeKeys _ (h.restrict _)).mono
      (fun failed s₂ hs₂ => ?_) fun _ _ hf => hf
    by_cases hf : failed = 0
    · obtain rfl := hs₂ hf
      rw [if_pos hf, removeOrphansOf, Program.ends_pure]
      refine fun _ => ⟨rfl, fun t => ?_⟩
      cases t <;> simp [withoutOrphans]
    · rw [if_neg hf, Program.ends_pure]
      exact fun h0 => absurd h0 hf
  · rw [if_neg hf, Program.ends_pure]
    exact fun h0 => absurd h0 hf

/-! ### Restoring -/

/-- A restore appends a client for a key when none is found with its UUID or its email label. -/
def restored : List VpnKey → List Client → List Client
  | [], l => l
  | key :: keys, l =>
    restored keys
      (if l.any (matchesFind key.ownUuid key.ownEmail) then l else l ++ [⟨key.ownUuid, key.ownEmail⟩])

/-- The clients that an active key is restored from. -/
def VpnKey.Restorable (key : VpnKey) : Prop := key.ownUuid ≠ [] ∧ key.ownEmail ≠ []

theorem restored_cons_filter (key : VpnKey) (keys : List VpnKey) (t : Transport) (l : List Client) :
    restored ((key :: keys).filter fun key => key.transport = t) l =
      restored (keys.filter fun key => key.transport = t)
        (if key.transport = t ∧ l.any (matchesFind key.ownUuid key.ownEmail) = false then
          l ++ [⟨key.ownUuid, key.ownEmail⟩] else l) := by
  by_cases ht : key.transport = t
  · rw [List.filter_cons, if_pos (decide_eq_true ht), restored]
    cases l.any (matchesFind key.ownUuid key.ownEmail) <;> simp [ht]
  · rw [List.filter_cons, if_neg (by simpa using ht), if_neg fun h => ht h.1]

theorem findClient_isSome (t : Transport) (uuid email : Text) (s : XrayState) :
    (s.findClient t uuid email).isSome = (s.clients t).any (matchesFind uuid email) := by
  rw [XrayState.findClient, List.isSome_find?]

/-- **The last pass**, when it does not fail. -/
theorem ends_restoreMissingActiveXrayClients (keys : List VpnKey) (s : XrayState) :
    Program.Ends (restoreMissingActiveXrayClients keys)
      (fun _ s' => s'.keys = s.keys ∧ (∀ key ∈ keys, key.Restorable) ∧
        ∀ t, s'.clients t = restored (keys.filter fun key => key.transport = t) (s.clients t))
      (fun _ _ => True) s := by
  induction keys generalizing s with
  | nil => exact ⟨rfl, List.forall_mem_nil _, fun t => rfl⟩
  | cons key keys ih =>
    rw [restoreMissingActiveXrayClients]
    by_cases hmissing : (key.ownUuid.isEmpty || key.ownEmail.isEmpty || key.shortId.isEmpty) = true
    · rw [if_pos hmissing]
      trivial
    · have hrestorable : key.Restorable := by
        constructor <;> intro h <;> simp [h] at hmissing
      have hnext : ∀ s₁ : XrayState, s₁.keys = s.keys →
          (∀ t, s₁.clients t = if key.transport = t ∧
            (s.clients t).any (matchesFind key.ownUuid key.ownEmail) = false then
              s.clients t ++ [⟨key.ownUuid, key.ownEmail⟩] else s.clients t) →
          Program.Ends (restoreMissingActiveXrayClients keys)
            (fun _ s' => s'.keys = s.keys ∧ (∀ key' ∈ key :: keys, key'.Restorable) ∧
              ∀ t, s'.clients t =
                restored ((key :: keys).filter fun key => key.transport = t) (s.clients t))
            (fun _ _ => True) s₁ := by
        intro s₁ hkeys hclients
        refine (ih s₁).mono (fun _ s' h => ?_) fun _ _ h => h
        refine ⟨h.1.trans hkeys, List.forall_mem_cons.2 ⟨hrestorable, h.2.1⟩, fun t => ?_⟩
        rw [h.2.2 t, hclients t, restored_cons_filter]
      rw [if_neg hmissing, Program.ends_bind, Program.ends_get]
      have hany := findClient_isSome key.transport key.ownUuid key.ownEmail s
      cases hfind : s.findClient key.transport key.ownUuid key.ownEmail with
      | some c =>
        rw [hfind, Option.isSome_some] at hany
        refine hnext s rfl fun t => (if_neg ?_).symm
        rintro ⟨rfl, hnone⟩
        rw [hnone] at hany
        cases hany
      | none =>
        rw [hfind, Option.isSome_none] at hany
        simp only
        rw [Program.ends_bind, addClient]
        split
        · trivial
        · rw [Program.ends_bind, Program.ends_get, hfind]
          simp only
          rw [Program.ends_modify]
          refine hnext _ rfl fun t => ?_
          by_cases ht : key.transport = t
          · subst ht
            rw [if_pos ⟨rfl, hany.symm⟩]
            simp [XrayState.setClients]
          · rw [if_neg fun h => ht h.1]
            simp [XrayState.setClients, Ne.symm ht]

/-! ### The drift -/

/-- The clients of a list that stay after the removing passes. -/
def stayingOf (nonLive activeKeys rows : List VpnKey) (t : Transport) (l : List Client) :
    List Client :=
  withoutOrphans activeKeys rows (l.filter fun c => !removedBy nonLive t c)

/-- **The drift passes**, when they do not fail. -/
theorem ends_startupReconcileDrift (s : XrayState) :
    Program.Ends startupReconcileDrift
      (fun failed s' => failed = 0 → s'.keys = s.keys ∧
        (∀ key ∈ s.listKeys (· = .active), key.Restorable) ∧
        ∀ t, s'.clients t = restored ((s.listKeys (· = .active)).filter fun key => key.transport = t)
          (stayingOf (s.listKeys (· ≠ .active)) (s.listKeys (· = .active)) s.keys t (s.clients t)))
      (fun _ _ => False) s := by
  have hnonLive : (s.listKeys fun _ => true).filter (fun key => key.status ≠ .active) =
      s.listKeys (· ≠ .active) := by
    simp [XrayState.listKeys, List.filter_filter, Bool.and_comm]
  have hcleared : (removeNonLiveXrayClients (s.listKeys fun _ => true) s).NonLiveCleared := by
    rw [removeNonLiveXrayClients_eq, hnonLive]
    intro key hkey hxray hstatus t c hc
    have hkept := (List.mem_filter.1 hc).2
    rw [Bool.not_eq_true', removedBy, List.any_eq_false] at hkept
    refine Bool.eq_false_iff.2 (hkept key (List.mem_filter.2 ⟨hkey, ?_⟩))
    simp [hxray, hstatus]
  rw [startupReconcileDrift, Program.ends_tryCatch, Program.ends_bind, Program.ends_get,
    Program.ends_bind, Program.ends_modify, Program.ends_bind]
  refine (ends_removeOrphansOf _ hcleared).mono (fun failed s₁ hs₁ => ?_) fun _ _ hf => hf.elim
  by_cases hf : failed = 0
  · obtain ⟨hkeys, hclients⟩ := hs₁ hf
    rw [if_pos hf, Program.ends_bind]
    refine (ends_restoreMissingActiveXrayClients _ s₁).mono (fun _ s₂ hs₂ => ?_) fun _ _ _ => ?_
    · refine fun _ => ⟨hs₂.1.trans (hkeys.trans ?_), hs₂.2.1, fun t => ?_⟩
      · rw [removeNonLiveXrayClients_eq]
        rfl
      · rw [hs₂.2.2 t, hclients t, removeNonLiveXrayClients_eq, hnonLive]
        rfl
    · exact fun h0 => absurd h0 (by decide)
  · rw [if_neg hf]
    exact fun h0 => absurd h0 hf

end VpnBot.Xray
