import VpnBot.Xray.Passes

/-!
# When the startup reconcile leaves exactly the clients of the active keys

`ManagedExactly` is the aim of the reconcile.  The removing passes look at a client through the keys
that are not live and through the orphans, never through the inbound it stands in, so a client may
stay that should not, and a restore may be left out for a client that has only the email of the key.
`managedExactly_iff` says when this does not happen, in terms of the state before the run: every
client that stays has its own key (`Settled`).
-/

namespace VpnBot.Xray

open Py Sys

/-! ### Clients and keys that match -/

/-- The UUIDs of the clients. -/
def ids (l : List Client) : List Text := l.map Client.id

/-- Exactly one client for each key, with the UUID of the key, and no other client. -/
structure Exact (keys : List VpnKey) (l : List Client) : Prop where
  one : ∀ key ∈ keys, (ids l).count key.ownUuid = 1
  only : ∀ c ∈ l, ∃ key ∈ keys, c.id = key.ownUuid

/-- Where the UUID of a key is missing no client has its email label. -/
def Free (keys : List VpnKey) (l : List Client) : Prop :=
  ∀ key ∈ keys, key.ownUuid ∉ ids l → ∀ c ∈ l, c.email ≠ key.ownEmail

/-- No two keys whose UUIDs are missing have one email label. -/
def Apart (keys : List VpnKey) (l : List Client) : Prop :=
  keys.Pairwise fun key key' =>
    key.ownUuid ∉ ids l → key'.ownUuid ∉ ids l → key.ownEmail ≠ key'.ownEmail

/-- Every client has the UUID of one of the keys, no two the same one, and where the UUID of a key
is missing no client and no other such key has its email label. -/
structure Settled (keys : List VpnKey) (l : List Client) : Prop where
  own : ∀ c ∈ l, ∃ key ∈ keys, c.id = key.ownUuid
  once : (ids l).Nodup
  free : Free keys l
  apart : Apart keys l

theorem exact_iff {keys : List VpnKey} {l : List Client} :
    Exact keys l ↔ (ids l).Nodup ∧ (∀ c ∈ l, ∃ key ∈ keys, c.id = key.ownUuid) ∧
      ∀ key ∈ keys, key.ownUuid ∈ ids l := by
  constructor
  · rintro ⟨hone, honly⟩
    refine ⟨List.nodup_iff_count_le_one.2 fun id => ?_, honly, fun key hkey => ?_⟩
    · by_cases hid : id ∈ ids l
      · obtain ⟨c, hc, rfl⟩ := List.mem_map.1 hid
        obtain ⟨key, hkey, hown⟩ := honly c hc
        rw [hown, hone key hkey]
      · rw [List.count_eq_zero_of_not_mem hid]
        exact Nat.zero_le 1
    · have hpos : 0 < (ids l).count key.ownUuid := by rw [hone key hkey]; exact Nat.one_pos
      exact List.count_pos_iff.1 hpos
  · rintro ⟨hnodup, honly, hall⟩
    exact ⟨fun key hkey => List.count_eq_one_of_mem hnodup (hall key hkey), honly⟩

/-! ### The restore -/

theorem mem_restored {keys : List VpnKey} {l : List Client} {c : Client}
    (h : c ∈ restored keys l) : c ∈ l ∨ ∃ key ∈ keys, c.id = key.ownUuid := by
  induction keys generalizing l with
  | nil => exact Or.inl h
  | cons key keys ih =>
    rw [restored] at h
    rcases ih h with hmem | ⟨key', hkey', hid⟩
    · split at hmem
      · exact Or.inl hmem
      · rcases List.mem_append.1 hmem with hmem | hnew
        · exact Or.inl hmem
        · rw [List.mem_singleton.1 hnew]
          exact Or.inr ⟨key, List.mem_cons_self, rfl⟩
    · exact Or.inr ⟨key', List.mem_cons_of_mem _ hkey', hid⟩

theorem prefix_restored (keys : List VpnKey) (l : List Client) : l <+: restored keys l := by
  induction keys generalizing l with
  | nil => exact List.prefix_refl l
  | cons key keys ih =>
    rw [restored]
    split
    · exact ih l
    · exact (List.prefix_append l _).trans (ih _)

theorem nodup_ids_restored {keys : List VpnKey} {l : List Client}
    (hkeys : ∀ key ∈ keys, key.Restorable) :
    (ids (restored keys l)).Nodup ↔ (ids l).Nodup := by
  refine ⟨fun h => h.sublist ((prefix_restored keys l).sublist.map _), ?_⟩
  induction keys generalizing l with
  | nil => exact fun h => h
  | cons key keys ih =>
    intro hl
    rw [restored]
    refine ih (fun key' h => hkeys key' (List.mem_cons_of_mem _ h)) ?_
    split
    · exact hl
    · next hnone =>
      rw [ids, List.map_append, List.nodup_append]
      refine ⟨hl, List.nodup_singleton _, ?_⟩
      rintro id hid _ hnew rfl
      obtain ⟨c, hc, rfl⟩ := List.mem_map.1 hid
      refine hnone (List.any_eq_true.2 ⟨c, hc, ?_⟩)
      have huuid := (hkeys key List.mem_cons_self).1
      have hown : c.id = key.ownUuid := by simpa using hnew
      simp [matchesFind, hown, huuid]

section Restore

variable {keys : List VpnKey} {l : List Client}

theorem free_apart_cons_of_mem {key : VpnKey} (h : key.ownUuid ∈ ids l) :
    (Free (key :: keys) l ∧ Apart (key :: keys) l) ↔ Free keys l ∧ Apart keys l := by
  simp [Free, Apart, h]

theorem free_apart_append {key : VpnKey} (hkey : key.ownUuid ∉ ids l)
    (hemail : ∀ c ∈ l, c.email ≠ key.ownEmail)
    (hne : ∀ key' ∈ keys, key.ownUuid ≠ key'.ownUuid) :
    (Free (key :: keys) l ∧ Apart (key :: keys) l) ↔
      Free keys (l ++ [⟨key.ownUuid, key.ownEmail⟩]) ∧
        Apart keys (l ++ [⟨key.ownUuid, key.ownEmail⟩]) := by
  have hids : ∀ key' ∈ keys, key'.ownUuid ∉ ids (l ++ [⟨key.ownUuid, key.ownEmail⟩]) ↔
      key'.ownUuid ∉ ids l := by
    intro key' hkey'
    simp [ids, (hne key' hkey').symm]
  have happart : Apart keys (l ++ [⟨key.ownUuid, key.ownEmail⟩]) ↔ Apart keys l :=
    List.Pairwise.iff_of_mem fun hk hk' => by rw [hids _ hk, hids _ hk']
  have hfree : Free keys (l ++ [⟨key.ownUuid, key.ownEmail⟩]) ↔ Free keys l ∧
      ∀ key' ∈ keys, key'.ownUuid ∉ ids l → key.ownEmail ≠ key'.ownEmail := by
    constructor
    · intro h
      refine ⟨fun key' hk hm c hc => h key' hk ((hids key' hk).2 hm) c (List.mem_append_left _ hc),
        fun key' hk hm => h key' hk ((hids key' hk).2 hm) ⟨key.ownUuid, key.ownEmail⟩ ?_⟩
      exact List.mem_append_right _ List.mem_cons_self
    · rintro ⟨hfree, hnew⟩ key' hk hm c hc
      rw [hids key' hk] at hm
      rcases List.mem_append.1 hc with hc | hc
      · exact hfree key' hk hm c hc
      · rw [List.mem_singleton.1 hc]
        exact hnew key' hk hm
  rw [happart, hfree]
  simp only [Free, Apart, List.forall_mem_cons, List.pairwise_cons]
  constructor
  · rintro ⟨⟨-, hfree⟩, happart, hpair⟩
    exact ⟨⟨hfree, fun key' hk hm => happart key' hk hkey hm⟩, hpair⟩
  · rintro ⟨⟨hfree, hnew⟩, hpair⟩
    exact ⟨⟨fun _ => hemail, hfree⟩, fun key' hk _ hm => hnew key' hk hm, hpair⟩

/-- The restore reaches every key just when no email label stands in its way. -/
theorem forall_mem_ids_restored_iff (hkeys : ∀ key ∈ keys, key.Restorable)
    (hne : keys.Pairwise fun key key' => key.ownUuid ≠ key'.ownUuid) :
    (∀ key ∈ keys, key.ownUuid ∈ ids (restored keys l)) ↔ Free keys l ∧ Apart keys l := by
  induction keys generalizing l with
  | nil => simp [Free, Apart]
  | cons key keys ih =>
    obtain ⟨hne₁, hne₂⟩ := List.pairwise_cons.1 hne
    obtain ⟨⟨huuid, hemail⟩, hrest⟩ := List.forall_mem_cons.1 hkeys
    -- the keys after it append other UUIDs
    have hself : ∀ l₁, key.ownUuid ∈ ids (restored keys l₁) ↔ key.ownUuid ∈ ids l₁ := by
      intro l₁
      refine ⟨fun h => ?_, fun h => ((prefix_restored keys l₁).sublist.map _).subset h⟩
      obtain ⟨c, hc, hid⟩ := List.mem_map.1 h
      rcases mem_restored hc with hc | ⟨key', hkey', hid'⟩
      · exact hid ▸ List.mem_map_of_mem hc
      · exact absurd (hid.symm.trans hid') (hne₁ key' hkey')
    rw [restored, List.forall_mem_cons, hself, ih hrest hne₂]
    by_cases hmem : key.ownUuid ∈ ids l
    · have hfound : l.any (matchesFind key.ownUuid key.ownEmail) = true := by
        obtain ⟨c, hc, hid⟩ := List.mem_map.1 hmem
        exact List.any_eq_true.2 ⟨c, hc, by simp [matchesFind, hid, huuid]⟩
      rw [if_pos hfound, free_apart_cons_of_mem hmem]
      exact and_iff_right hmem
    · by_cases hfound : l.any (matchesFind key.ownUuid key.ownEmail) = true
      · rw [if_pos hfound]
        refine iff_of_false (fun h => hmem h.1) fun h => ?_
        obtain ⟨c, hc, hfind⟩ := List.any_eq_true.1 hfound
        have hid : c.id ≠ key.ownUuid := fun hid => hmem (hid ▸ List.mem_map_of_mem hc)
        have hown : c.email = key.ownEmail := by
          simpa [matchesFind, hid, huuid, hemail] using hfind
        exact h.1 key List.mem_cons_self hmem c hc hown
      · have hfree : ∀ c ∈ l, c.email ≠ key.ownEmail := by
          intro c hc hown
          exact hfound (List.any_eq_true.2 ⟨c, hc, by simp [matchesFind, hown, hemail]⟩)
        rw [if_neg hfound, free_apart_append hmem hfree hne₁]
        exact and_iff_right (by simp [ids])

/-- **The restore** leaves exactly the clients of the keys just when the clients are settled. -/
theorem exact_restored_iff (hkeys : ∀ key ∈ keys, key.Restorable)
    (hne : keys.Pairwise fun key key' => key.ownUuid ≠ key'.ownUuid) :
    Exact keys (restored keys l) ↔ Settled keys l := by
  rw [exact_iff, nodup_ids_restored hkeys, forall_mem_ids_restored_iff hkeys hne]
  constructor
  · rintro ⟨hnodup, honly, hfree, happart⟩
    exact ⟨fun c hc => honly c ((prefix_restored keys l).subset hc), hnodup, hfree, happart⟩
  · rintro ⟨hown, hnodup, hfree, happart⟩
    exact ⟨hnodup, fun c hc => (mem_restored hc).elim (hown c) id, hfree, happart⟩

end Restore

/-! ### The state before the run -/

namespace XrayState

variable (s : XrayState)

/-- The Xray keys that are active after the first pass. -/
def liveKeys : List VpnKey := s.keys.filter fun key => key.keyType = .xray && s.Live key

/-- The other Xray keys. -/
def nonLiveKeys : List VpnKey := s.keys.filter fun key => key.keyType = .xray && !s.Live key

/-- The clients of an inbound that no pass takes away: no key of the inbound's transport that is not
live removes the client, and neither does an orphan. -/
def staying (t : Transport) : List Client :=
  stayingOf s.nonLiveKeys s.liveKeys s.remaining t (s.clients t)

def liveKeysOf (t : Transport) : List VpnKey := s.liveKeys.filter fun key => key.transport = t

/-- The clients that stay are settled on both inbounds. -/
def Clean : Prop := ∀ t, Settled (s.liveKeysOf t) (s.staying t)

/-- The aim of the reconcile: each inbound holds exactly one client for each active key of its
transport, with the key's own UUID, and no other client. -/
def ManagedExactly : Prop :=
  ∀ t, Exact ((s.listKeys (· = .active)).filter fun key => key.transport = t) (s.clients t)

/-- The own UUIDs of the Xray keys are distinct where they are there. -/
def DistinctUuids : Prop :=
  (s.keys.filter fun key => key.keyType = .xray).Pairwise fun key key' =>
    key.ownUuid = key'.ownUuid → key.ownUuid = []

end XrayState

/-! ### The first pass, once more -/

section Settle

variable {s : XrayState} {key : VpnKey}

@[simp] theorem settle_keyType (key : VpnKey) : (s.settle key).keyType = key.keyType := rfl

@[simp] theorem settle_ownUuid (key : VpnKey) : (s.settle key).ownUuid = key.ownUuid := rfl

@[simp] theorem settle_ownEmail (key : VpnKey) : (s.settle key).ownEmail = key.ownEmail := rfl

@[simp] theorem settle_transport (key : VpnKey) : (s.settle key).transport = key.transport := rfl

@[simp] theorem settle_removes (key : VpnKey) : (s.settle key).removes = key.removes := rfl

theorem live_iff (hxray : key.keyType = .xray) :
    s.Live key ↔ key.survives = true ∧ (s.settle key).status = .active := by
  simp only [XrayState.settle, XrayState.settledStatus, hxray, if_true, VpnKey.survives]
  cases hs : key.status <;> simp [XrayState.Live, hs]

theorem closing_not_live (h : key.closing = true) : key.keyType = .xray ∧ ¬ s.Live key := by
  rw [VpnKey.closing, Bool.and_eq_true] at h
  obtain ⟨hxray, hstatus⟩ := h
  refine ⟨of_decide_eq_true hxray, ?_⟩
  simp only [Bool.or_eq_true, decide_eq_true_eq, or_assoc] at hstatus
  rcases hstatus with hs | hs | hs <;> simp [XrayState.Live, hs]

theorem closing_of_not_survives (h : key.survives = false) : key.closing = true := by
  simp only [VpnKey.survives, Bool.not_eq_false', Bool.and_eq_true, Bool.or_eq_true,
    decide_eq_true_eq] at h
  obtain ⟨hxray, hs | hs⟩ := h <;> simp [VpnKey.closing, hxray, hs]

theorem listKeys_active_stage :
    (stage s s.keys []).listKeys (· = .active) = s.liveKeys.map s.settle := by
  rw [XrayState.listKeys, stage, List.append_nil, List.filter_map, List.filter_filter,
    XrayState.liveKeys]
  congr 1
  refine List.filter_congr fun key _ => ?_
  by_cases hxray : key.keyType = .xray
  · have hlive := live_iff (s := s) hxray
    simp [hxray, hlive, Bool.and_comm]
  · simp [hxray]

theorem removedBy_nonLiveKeys (s : XrayState) (t : Transport) (c : Client) :
    (removedBy ((stage s s.keys []).listKeys (· ≠ .active)) t c ||
      s.keys.any fun key => key.closing && key.removes t c) = removedBy s.nonLiveKeys t c := by
  rw [Bool.eq_iff_iff, Bool.or_eq_true, removedBy, removedBy, List.any_eq_true, List.any_eq_true,
    List.any_eq_true]
  constructor
  · rintro (⟨_, hkey, hremoves⟩ | ⟨key, hkey, hremoves⟩)
    · obtain ⟨hmem, hlisted⟩ := List.mem_filter.1 hkey
      rw [stage, List.append_nil] at hmem
      obtain ⟨key, hrow, rfl⟩ := List.mem_map.1 hmem
      obtain ⟨hrow, hsurvives⟩ := List.mem_filter.1 hrow
      simp only [Bool.and_eq_true, decide_eq_true_eq] at hlisted
      have hxray : key.keyType = .xray := hlisted.1
      refine ⟨key, List.mem_filter.2 ⟨hrow, ?_⟩, hremoves⟩
      simp [hxray, live_iff hxray, hlisted.2]
    · rw [Bool.and_eq_true] at hremoves
      obtain ⟨hxray, hlive⟩ := closing_not_live (s := s) hremoves.1
      exact ⟨key, List.mem_filter.2 ⟨hkey, by simp [hxray, hlive]⟩, hremoves.2⟩
  · rintro ⟨key, hkey, hremoves⟩
    obtain ⟨hmem, hnot⟩ := List.mem_filter.1 hkey
    simp only [Bool.and_eq_true, decide_eq_true_eq, Bool.not_eq_true', decide_eq_false_iff_not]
      at hnot
    cases hsurvives : key.survives with
    | false =>
      exact Or.inr ⟨key, hmem, by rw [closing_of_not_survives hsurvives, hremoves]; rfl⟩
    | true =>
      have hstatus : (s.settle key).status ≠ .active := fun ha =>
        hnot.2 ((live_iff hnot.1).2 ⟨hsurvives, ha⟩)
      refine Or.inl ⟨s.settle key, List.mem_filter.2 ⟨?_, by simp [hnot.1, hstatus]⟩, hremoves⟩
      rw [stage, List.append_nil]
      exact List.mem_map_of_mem (List.mem_filter.2 ⟨hmem, hsurvives⟩)

theorem ownedByActiveKey_settle (keys : List VpnKey) (uuid email : Text) :
    ownedByActiveKey (keys.map s.settle) uuid email = ownedByActiveKey keys uuid email := by
  rw [ownedByActiveKey, List.any_map]
  rfl

theorem isNone_historical_settle (rows : List VpnKey) (uuid email : Text) :
    (findXrayHistoricalOwner uuid email ⟨rows.map s.settle, fun _ => []⟩).isNone =
      (findXrayHistoricalOwner uuid email ⟨rows, fun _ => []⟩).isNone := by
  have hfind : ∀ p : VpnKey → Bool, (∀ key, p (s.settle key) = p key) →
      (rows.map s.settle).find? p = (rows.find? p).map s.settle := by
    intro p hp
    rw [List.find?_map]
    congr 2
    exact funext hp
  have huuid := hfind (fun key => key.uuid = uuid) fun _ => rfl
  have hemail := hfind (fun key => key.emailLabel = email) fun _ => rfl
  simp only [findXrayHistoricalOwner, XrayState.findByUuid, XrayState.findByEmailLabel, huuid, hemail]
  have hxray : ∀ found : Option VpnKey,
      ((found.map s.settle).filter fun key => key.keyType = .xray).isNone =
        (found.filter fun key => key.keyType = .xray).isNone := by
    intro found
    cases found with
    | none => rfl
    | some key => by_cases h : key.keyType = .xray <;> simp [Option.filter, h]
  by_cases hu : uuid.isEmpty = true
  · by_cases he : email.isEmpty = true
    · simp [hu, he]
    · simpa [hu, he] using hxray _
  · cases hkey : rows.find? fun key => key.uuid = uuid with
    | some key => simpa [hu, hkey] using hxray (some key)
    | none =>
      by_cases he : email.isEmpty = true
      · simp [hu, he]
      · simpa [hu, he, hkey] using hxray _

theorem withoutOrphans_settle (activeKeys rows : List VpnKey) (l : List Client) :
    withoutOrphans (activeKeys.map s.settle) (rows.map s.settle) l =
      withoutOrphans activeKeys rows l := by
  have horphan : ∀ c, orphan (activeKeys.map s.settle) (rows.map s.settle) c =
      orphan activeKeys rows c := by
    intro c
    rw [orphan, ownedByActiveKey_settle, isNone_historical_settle]
    rfl
  simp only [withoutOrphans, takenByOrphan, horphan]

theorem stayingOf_stage (s : XrayState) (t : Transport) :
    stayingOf ((stage s s.keys []).listKeys (· ≠ .active))
      ((stage s s.keys []).listKeys (· = .active)) (stage s s.keys []).keys t
      ((stage s s.keys []).clients t) = s.staying t := by
  have hclients : ((stage s s.keys []).clients t).filter
      (fun c => !removedBy ((stage s s.keys []).listKeys (· ≠ .active)) t c) =
        (s.clients t).filter fun c => !removedBy s.nonLiveKeys t c := by
    change ((s.clients t).filter _).filter _ = _
    rw [List.filter_filter]
    refine List.filter_congr fun c _ => ?_
    rw [← removedBy_nonLiveKeys, Bool.not_or]
  have hkeys : (stage s s.keys []).keys = s.remaining.map s.settle := List.append_nil _
  rw [stayingOf, hclients, listKeys_active_stage, hkeys, withoutOrphans_settle]
  rfl

theorem restored_settle (keys : List VpnKey) (l : List Client) :
    restored (keys.map s.settle) l = restored keys l := by
  induction keys generalizing l with
  | nil => rfl
  | cons key keys ih =>
    rw [List.map_cons, restored, restored, ih]
    rfl

theorem exact_settle (keys : List VpnKey) (l : List Client) :
    Exact (keys.map s.settle) l ↔ Exact keys l := by
  constructor
  · rintro ⟨hone, honly⟩
    refine ⟨fun key hkey => hone (s.settle key) (List.mem_map_of_mem hkey), fun c hc => ?_⟩
    obtain ⟨_, hsettled, hid⟩ := honly c hc
    obtain ⟨key, hkey, rfl⟩ := List.mem_map.1 hsettled
    exact ⟨key, hkey, hid⟩
  · rintro ⟨hone, honly⟩
    refine ⟨fun _ hsettled => ?_, fun c hc => ?_⟩
    · obtain ⟨key, hkey, rfl⟩ := List.mem_map.1 hsettled
      exact hone key hkey
    · obtain ⟨key, hkey, hid⟩ := honly c hc
      exact ⟨s.settle key, List.mem_map_of_mem hkey, hid⟩

end Settle

/-- **The reconcile**: when it ends without failures, each inbound holds exactly the clients of the
active keys of its transport just when the clients that no pass takes away are settled. -/
theorem managedExactly_iff (s : XrayState) (hkeys : s.InOrder) (huuids : s.DistinctUuids) :
    Program.Ends startupReconcile
      (fun failed s' => failed = 0 → (s'.ManagedExactly ↔ s.Clean)) (fun _ _ => False) s := by
  rw [startupReconcile, Program.ends_bind, Program.ends_modify, startupReconcileKeys_eq hkeys]
  refine (ends_startupReconcileDrift (stage s s.keys [])).mono (fun failed s' hs hf => ?_)
    fun _ _ hf => hf
  obtain ⟨hrows, hrestorable, hclients⟩ := hs hf
  have hactive : s'.listKeys (· = .active) = s.liveKeys.map s.settle := by
    rw [← listKeys_active_stage, XrayState.listKeys, XrayState.listKeys, hrows]
  refine forall_congr' fun t => ?_
  have hof : (s.liveKeys.map s.settle).filter (fun key => key.transport = t) =
      (s.liveKeysOf t).map s.settle := by
    rw [List.filter_map]
    rfl
  have hrestorableOf : ∀ key ∈ s.liveKeysOf t, key.Restorable := by
    intro key hkey
    have hmem := List.mem_map_of_mem (f := s.settle) (List.mem_filter.1 hkey).1
    rw [← listKeys_active_stage] at hmem
    exact hrestorable (s.settle key) hmem
  have hne : (s.liveKeysOf t).Pairwise fun key key' => key.ownUuid ≠ key'.ownUuid := by
    have hsub : List.Sublist (s.liveKeysOf t) (s.keys.filter fun key => key.keyType = .xray) := by
      refine List.filter_sublist.trans (List.monotone_filter_right _ fun key hkey => ?_)
      exact (Bool.and_eq_true _ _ ▸ hkey).1
    refine (huuids.sublist hsub).imp_of_mem fun hkey _ heq hown => ?_
    exact (hrestorableOf _ hkey).1 (heq hown)
  rw [hactive, hof, exact_settle, hclients t, listKeys_active_stage, hof, restored_settle,
    ← listKeys_active_stage, stayingOf_stage]
  exact exact_restored_iff hrestorableOf hne

/-- An active key whose email label stands on a client with another UUID. -/
def foreignUuid : XrayState where
  keys := [⟨1, .xray, .active, "a1".toList, "xray_tcp_Ab3dE".toList, [], [], "0f".toList, .tcp⟩]
  clients
    | .tcp => [⟨"b2".toList, "xray_tcp_Ab3dE".toList⟩]
    | .http => []

/-- For such a key the reconcile ends without failures and restores nothing. -/
theorem not_managedExactly_foreignUuid :
    ¬ Program.Ends startupReconcile (fun failed s' => failed = 0 → s'.ManagedExactly)
      (fun _ _ => False) foreignUuid := by
  intro h
  have hrun : Program.Ends startupReconcile
      (fun failed s' => failed = 0 ∧ s'.keys = foreignUuid.keys ∧
        s'.clients .tcp = [⟨"b2".toList, "xray_tcp_Ab3dE".toList⟩])
      (fun _ _ => False) foreignUuid := ⟨rfl, rfl, rfl⟩
  have hfalse : Program.Ends startupReconcile (fun _ _ => False) (fun _ _ => False) foreignUuid := by
    refine (h.and hrun).mono (fun failed s' hs => ?_) fun _ _ hs => hs.1
    obtain ⟨hexact, hfailed, hkeys, hclients⟩ := hs
    obtain ⟨key, hkey, hid⟩ := (hexact hfailed .tcp).only ⟨"b2".toList, "xray_tcp_Ab3dE".toList⟩
      (by rw [hclients]; exact List.mem_cons_self)
    have hmem := (List.mem_filter.1 (List.mem_filter.1 hkey).1).1
    rw [hkeys] at hmem
    rw [List.mem_singleton.1 hmem] at hid
    exact absurd hid (by decide)
  exact hfalse

/-- A key with its own client, and a client of no key. -/
def ownAndUnknown : XrayState where
  keys := [⟨1, .xray, .active, "a1".toList, "xray_tcp_Ab3dE".toList, [], [], "0f".toList, .tcp⟩]
  clients
    | .tcp => [⟨"a1".toList, "xray_tcp_Ab3dE".toList⟩, ⟨"b2".toList, "xray_tcp_Fg4hJ".toList⟩]
    | .http => []

theorem managedExactly_iff_ownAndUnknown :
    Program.Ends startupReconcile
      (fun failed s' => failed = 0 → (s'.ManagedExactly ↔ ownAndUnknown.Clean)) (fun _ _ => False)
      ownAndUnknown :=
  managedExactly_iff ownAndUnknown (List.pairwise_singleton _ _) (List.pairwise_singleton _ _)

end VpnBot.Xray
