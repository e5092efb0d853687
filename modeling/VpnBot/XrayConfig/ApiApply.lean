import VpnBot.XrayConfig.Adapter

/-!
# The running Xray and the file

A call in api mode edits one inbound, and every write binds the freedom outbounds as well.  A file that comes
into the running Xray by a restart, or by a reload that loads it, is what runs then.  The API gets the
edited inbound alone: what runs is the file before the outbounds were bound (`adi_eq_plan`), which is the
new file exactly when the provider returns what the outbounds have already (`api_step_iff`).
-/

namespace Py.Json

theorem isObj_of_asArr_field {d : Json} {k : Text} {l : List Json} (h : (d.field k).asArr = some l) :
    d.isObj = true := by
  cases d with
  | obj fs => rfl
  | _ => cases h

theorem eq_arr_of_asArr {d : Json} {l : List Json} (h : d.asArr = some l) : d = .arr l := by
  cases d with
  | arr l' =>
    cases h
    rfl
  | _ => cases h

theorem field?_of_field_arr {d : Json} {k : Text} {l : List Json} (h : d.field k = .arr l) :
    d.field? k = some (.arr l) := by
  unfold field at h
  cases hfield : d.field? k with
  | none =>
    rw [hfield] at h
    cases h
  | some v =>
    rw [hfield] at h
    exact congrArg some h

/-- The assignment of the value that is there. -/
theorem set_of_field? {d v : Json} {k : Text} (h : d.field? k = some v) : d.set k v = d := by
  cases d with
  | obj fs =>
    refine congrArg obj ?_
    replace h : (fs.find? fun p => p.1 = k).map Prod.snd = some v := h
    induction fs with
    | nil => cases h
    | cons p fs ih =>
      rw [setField]
      split
      · rename_i hp
        rw [List.find?_cons_of_pos (by simpa using hp)] at h
        cases h
        rw [← hp]
      · rename_i hp
        rw [List.find?_cons_of_neg (by simpa using hp)] at h
        rw [ih h]
  | _ => rfl

theorem field?_erase_self (d : Json) (k : Text) : (d.erase k).field? k = none := by
  cases d with
  | obj fs =>
    show ((fs.filter fun p => p.1 ≠ k).find? fun p => p.1 = k).map Prod.snd = none
    rw [Option.map_eq_none_iff, List.find?_eq_none]
    intro p hp
    simpa using (List.mem_filter.1 hp).2
  | _ => rfl

end Py.Json

namespace VpnBot.XrayConfig

open Py Sys

variable {host : Host} {call : Call} {adapter : Adapter} {s s' : State} {config inbound edited : Json}
  {tag : Text} {tunnelIp : Option Text} {provider : SendThrough} {path : Path}

/-! ### Binding the outbounds -/

theorem bindOutbound_eq_iff (outbound : Json) :
    (bindOutbound tunnelIp outbound).1 = outbound ↔ (bindOutbound tunnelIp outbound).2 = false := by
  unfold bindOutbound
  split
  · simp
  · rename_i hfreedom
    have hobj : outbound.isObj = true := by
      simp only [Bool.or_eq_true, Bool.not_eq_true', not_or, Bool.not_eq_false] at hfreedom
      exact hfreedom.1
    split
    · rename_i ip _
      split
      · simp
      · rename_i hother
        simp only [Bool.true_eq_false, iff_false]
        intro heq
        rw [← heq, Json.field_set_self hobj] at hother
        exact hother (by simp [Json.isStr])
    · split
      · rename_i hthere
        simp only [Bool.true_eq_false, iff_false]
        intro heq
        rw [← heq, Json.field?_erase_self] at hthere
        cases hthere
      · simp

/-- **`apply_warp_send_through` reports a change exactly when it makes one.** -/
theorem applyWarpSendThrough_eq_iff :
    (applyWarpSendThrough config tunnelIp).1 = config ↔
      (applyWarpSendThrough config tunnelIp).2 = false := by
  unfold applyWarpSendThrough
  cases hl : (config.field "outbounds".toList).asArr with
  | none => simp
  | some l =>
    have hfield := Json.eq_arr_of_asArr hl
    have hobj := Json.isObj_of_asArr_field hl
    show config.set "outbounds".toList (.arr ((l.map (bindOutbound tunnelIp)).map Prod.fst)) = config ↔
      (l.map (bindOutbound tunnelIp)).any Prod.snd = false
    rw [List.any_eq_false]
    constructor
    · intro heq p hp
      have hsame : (l.map (bindOutbound tunnelIp)).map Prod.fst = l := by
        have := Json.field_set_self hobj "outbounds".toList
          (.arr ((l.map (bindOutbound tunnelIp)).map Prod.fst))
        rw [heq, hfield] at this
        exact (Json.arr.inj this).symm
      obtain ⟨outbound, houtbound, rfl⟩ := List.mem_map.1 hp
      rw [List.map_map] at hsame
      have hunchanged := List.map_inj_left.1 (hsame.trans (List.map_id l).symm) outbound houtbound
      simpa using (bindOutbound_eq_iff outbound).1 hunchanged
    · intro hall
      rw [List.map_map]
      have hsame : l.map (Prod.fst ∘ bindOutbound tunnelIp) = l := by
        refine (List.map_congr_left fun outbound houtbound => ?_).trans (List.map_id l)
        refine (bindOutbound_eq_iff outbound).2 ?_
        simpa using hall _ (List.mem_map.2 ⟨outbound, houtbound, rfl⟩)
      rw [hsame]
      exact Json.set_of_field? (Json.field?_of_field_arr hfield)

theorem field_applyWarpSendThrough {k : Text} (hk : k ≠ "outbounds".toList) :
    (applyWarpSendThrough config tunnelIp).1.field k = config.field k := by
  unfold applyWarpSendThrough
  split
  · rfl
  · exact Json.field_set_of_ne _ _ hk

theorem applyWarpSendThrough_congr {config' : Json}
    (h : config'.field "outbounds".toList = config.field "outbounds".toList) :
    (applyWarpSendThrough config' tunnelIp).2 = (applyWarpSendThrough config tunnelIp).2 := by
  unfold applyWarpSendThrough
  rw [h]
  split <;> rfl

theorem field_writeTempConfig {k : Text} (hk : k ≠ "outbounds".toList) :
    (writeTempConfig provider config).field k = config.field k := by
  cases provider with
  | value tunnelIp => exact field_applyWarpSendThrough hk
  | _ => rfl

/-- The provider returns what the freedom outbounds have already. -/
def InSync (provider : SendThrough) (config : Json) : Prop :=
  match provider with
  | .unset | .raised => True
  | .value tunnelIp => (applyWarpSendThrough config tunnelIp).2 = false

theorem writeTempConfig_eq_iff : writeTempConfig provider config = config ↔ InSync provider config := by
  cases provider with
  | value tunnelIp => exact applyWarpSendThrough_eq_iff
  | _ => exact iff_of_true rfl trivial

theorem inSync_congr {config' : Json}
    (h : config'.field "outbounds".toList = config.field "outbounds".toList) :
    InSync provider config' ↔ InSync provider config := by
  cases provider with
  | value tunnelIp =>
    show _ = false ↔ _ = false
    rw [applyWarpSendThrough_congr h]
  | _ => exact Iff.rfl

/-! ### Editing the inbound -/

theorem hasTag_set {k : Text} {v : Json} (hk : "tag".toList ≠ k) :
    hasTag tag (inbound.set k v) = hasTag tag inbound := by
  unfold hasTag
  rw [Json.isObj_set, Json.field_set_of_ne _ _ hk]

@[simp] theorem hasTag_setClients (clients : List Json) :
    hasTag tag (setClients inbound clients) = hasTag tag inbound := hasTag_set (by decide)

@[simp] theorem hasTag_setShortIds (shortIds : List Json) :
    hasTag tag (setShortIds inbound shortIds) = hasTag tag inbound := hasTag_set (by decide)

theorem hasTag_addShortId {shortId : Text} {b : Bool} (h : addShortId inbound shortId = some (edited, b)) :
    hasTag tag edited = hasTag tag inbound := by
  simp only [addShortId, Option.bind_eq_bind, Option.bind_eq_some_iff] at h
  obtain ⟨reality, -, shortIds, -, h⟩ := h
  split at h <;> cases h
  · rfl
  · exact hasTag_setShortIds _

theorem hasTag_removeShortId {shortId : Text} {b : Bool}
    (h : removeShortId inbound shortId = some (edited, b)) : hasTag tag edited = hasTag tag inbound := by
  simp only [removeShortId, Option.bind_eq_bind, Option.bind_eq_some_iff] at h
  obtain ⟨reality, -, h⟩ := h
  split at h
  · cases h
    rfl
  · split at h <;> cases h
    · rfl
    · exact hasTag_setShortIds _

/-- **An edit leaves the tag.** -/
theorem hasTag_edit {op : Op} (h : op.edit inbound = some (some (edited, path))) :
    hasTag tag edited = hasTag tag inbound := by
  cases op with
  | addClient uuid email shortId flow manageShortId =>
    simp only [Op.edit, addClient, Option.bind_eq_bind, Option.map_eq_some_iff,
      Option.bind_eq_some_iff] at h
    obtain ⟨edit, ⟨clients, -, h⟩, hedit⟩ := h
    cases hedit
    split at h
    · cases h
    · split at h
      · cases h
        exact hasTag_setClients _
      · obtain ⟨⟨edited', inserted⟩, hadd, h⟩ := Option.bind_eq_some_iff.1 h
        cases h
        exact (hasTag_addShortId hadd).trans (hasTag_setClients _)
  | removeClient uuid email shortId dropShortId =>
    simp only [Op.edit, removeClient, Option.bind_eq_bind, Option.bind_eq_some_iff] at h
    obtain ⟨clients, -, h⟩ := h
    split at h
    · split at h <;> cases h
      exact hasTag_setClients _
    · obtain ⟨⟨edited', dropped⟩, hdrop, h⟩ := Option.bind_eq_some_iff.1 h
      have htag : hasTag tag edited' = hasTag tag inbound :=
        (hasTag_removeShortId hdrop).trans (hasTag_setClients _)
      split at h
      · cases h
        exact htag
      · split at h <;> cases h
        exact htag
  | renameClients renames preferRestart =>
    simp only [Op.edit, renameClients, Option.bind_eq_bind, Option.bind_eq_some_iff] at h
    obtain ⟨clients, -, h⟩ := h
    split at h <;> cases h
    exact hasTag_setClients _
  | ensureShortId shortId =>
    simp only [Op.edit, ensureShortId, Option.bind_eq_bind, Option.bind_eq_some_iff] at h
    obtain ⟨⟨edited', inserted⟩, hadd, h⟩ := h
    split at h <;> cases h
    exact hasTag_addShortId hadd

theorem find?_replaceFirst {l : List Json} {i : Json} (hfind : l.find? (hasTag tag) = some i)
    (hedited : hasTag tag edited = true) :
    (replaceFirst tag edited l).find? (hasTag tag) = some edited := by
  induction l with
  | nil => cases hfind
  | cons j l ih =>
    rw [replaceFirst]
    split
    · exact List.find?_cons_of_pos hedited
    · rename_i hj
      rw [List.find?_cons_of_neg hj] at hfind ⊢
      exact ih hfind

theorem items_of_asArr {l : List Json} (h : (config.field "inbounds".toList).asArr = some l) :
    (config.field "inbounds".toList).items = l := by
  rw [Json.eq_arr_of_asArr h]
  rfl

theorem Call.plan_eq_some (h : call.plan config = some (some (edited, path))) :
    ∃ l i inbound, (config.field "inbounds".toList).asArr = some l ∧
      l.find? (hasTag call.adapter.inboundTag) = some i ∧ hasTag call.adapter.inboundTag inbound = true ∧
      edited = replaceInbound call.adapter.inboundTag inbound config := by
  simp only [Call.plan, Option.bind_eq_bind, Option.bind_eq_some_iff] at h
  obtain ⟨i, htarget, edit, hedit, h⟩ := h
  obtain ⟨l, hl, hfind⟩ := Option.bind_eq_some_iff.1 htarget
  obtain ⟨hfind, -⟩ := Option.filter_eq_some_iff.1 hfind
  cases edit with
  | none => cases h
  | some edit =>
    obtain ⟨inbound, path'⟩ := edit
    cases h
    refine ⟨l, i, inbound, hl, hfind, ?_, rfl⟩
    rw [hasTag_edit hedit]
    exact List.find?_some hfind

/-! ### Steps -/

theorem field_outbounds_plan (h : call.plan config = some (some (edited, path))) :
    edited.field "outbounds".toList = config.field "outbounds".toList := by
  obtain ⟨_, _, _, -, -, -, rfl⟩ := Call.plan_eq_some h
  exact Json.field_set_of_ne _ _ (by decide)

/-- **The API leaves the running Xray with the edited file, before the outbounds are bound.** -/
theorem adi_eq_plan (h : call.plan config = some (some (edited, path)))
    (htarget : call.adapter.targetInbound (writeTempConfig provider edited) = some inbound) :
    adi call.adapter.inboundTag inbound config = edited := by
  obtain ⟨l, i, inbound', hl, hfind, htag, rfl⟩ := Call.plan_eq_some h
  have hobj := Json.isObj_of_asArr_field hl
  have hitems := items_of_asArr hl
  have hinbound : inbound = inbound' := by
    obtain ⟨l', hl', hfind'⟩ := Option.bind_eq_some_iff.1 htarget
    obtain ⟨hfind', -⟩ := Option.filter_eq_some_iff.1 hfind'
    rw [field_writeTempConfig (by decide), replaceInbound, Json.field_set_self hobj] at hl'
    cases hl'
    rw [hitems, find?_replaceFirst hfind htag] at hfind'
    exact (Option.some.inj hfind').symm
  have hany : (config.field "inbounds".toList).items.any (hasTag call.adapter.inboundTag) = true := by
    rw [hitems]
    exact List.any_eq_true.2 ⟨i, List.mem_of_find?_eq_some hfind, List.find?_some hfind⟩
  rw [adi, if_pos hany, hinbound]

/-- The condition on a step: a call that goes through the API writes to outbounds that the provider does not
change, and a call that goes through a reload finds a service that loads its file. -/
def Covered (host : Host) (s : State) (call : Call) : Prop :=
  ∀ config path, call.plan s.file = some (some (config, path)) →
    match path with
    | .api => InSync call.provider s.file
    | .reload => ∀ file, host.reload s.running file = file
    | .restart => True

theorem step_cases (h : step host s call = some s') :
    s' = s ∨ ∃ config path, call.plan s.file = some (some (config, path)) ∧
      install host call.adapter path (writeTempConfig call.provider config) s = some s' := by
  unfold step at h
  split at h
  · exact Or.inl (Option.some.inj h).symm
  · split at h
    · cases h
    · split at h
      · cases h
      · exact Or.inl (Option.some.inj h).symm
      · rename_i config path hplan
        exact Or.inr ⟨config, path, hplan, h⟩

/-- **A call through the API keeps the two equal exactly when the provider returns what the outbounds
have.** -/
theorem api_step_iff (heq : s.running = s.file)
    (hplan : call.plan s.file = some (some (config, .api)))
    (h : install host call.adapter .api (writeTempConfig call.provider config) s = some s') :
    s'.running = s'.file ↔ InSync call.provider s.file := by
  unfold install at h
  split at h
  · cases h
  · obtain ⟨inbound, htarget, rfl⟩ := Option.map_eq_some_iff.1 h
    show adi call.adapter.inboundTag inbound s.running = writeTempConfig call.provider config ↔ _
    rw [heq, adi_eq_plan hplan htarget, eq_comm, writeTempConfig_eq_iff]
    exact inSync_congr (field_outbounds_plan hplan)

theorem running_eq_file_step (heq : s.running = s.file) (hcovered : Covered host s call)
    (h : step host s call = some s') : s'.running = s'.file := by
  rcases step_cases h with rfl | ⟨config, path, hplan, hinstall⟩
  · exact heq
  · have hpath := hcovered config path hplan
    cases path with
    | api => exact (api_step_iff heq hplan hinstall).2 hpath
    | reload =>
      unfold install at hinstall
      split at hinstall <;> cases hinstall
      exact hpath _
    | restart =>
      unfold install at hinstall
      split at hinstall <;> cases hinstall
      rfl

/-! ### Every run -/

/-- Xray runs its file. -/
def State.Equal (s : State) : Prop := s.running = s.file

/-- **After every call of a run Xray runs its file**, when each call through the API finds the outbounds bound to
what the provider returns, and each reload loads the file. -/
theorem running_eq_file {calls : List Call} (heq : s.running = s.file)
    (hcovered : Allowed (step host) (Covered host) s calls)
    (hrun : runFrom (step host) s calls = some s') : s'.running = s'.file := by
  have hstep : ∀ s call s', State.Equal s → Covered host s call → step host s call = some s' →
      State.Equal s' := fun _ _ _ h hc hs => running_eq_file_step h hc hs
  have hequal : s'.Equal := invariant_of_allowed hstep heq hcovered hrun
  exact hequal

/-- A config with one inbound and a freedom outbound. -/
def smallConfig (outbound : Json) : Json :=
  .obj [("inbounds".toList, .arr [.obj [("tag".toList, .str "vless-in".toList),
      ("protocol".toList, .str "vless".toList), ("settings".toList, .obj []),
      ("streamSettings".toList, .obj [("security".toList, .str "reality".toList)])]]),
    ("outbounds".toList, .arr [outbound])]

def freedomOutbound : Json := .obj [("protocol".toList, .str "freedom".toList)]

/-- Every config passes the test, and a reload loads the file. -/
def goodHost : Host := ⟨fun _ => true, fun _ file => file⟩

/-- A client is added while the tunnel has the address `172.16.0.2`. -/
def addUser : Call :=
  ⟨⟨"vless-in".toList, true⟩, .addClient "u".toList "user1".toList [] [] false,
    .value (some "172.16.0.2".toList)⟩

/-- The outbound of the file is bound, and that of the running Xray is not. -/
theorem outbounds_differ : ¬ ∀ (host : Host) (s : State) (calls : List Call) (s' : State),
    (∀ running file, host.reload running file = file) → s.running = s.file →
      runFrom (step host) s calls = some s' → s'.running = s'.file := by
  intro hclaim
  have hrun : (runFrom (step goodHost) ⟨smallConfig freedomOutbound, smallConfig freedomOutbound⟩
      [addUser]).map (fun s => ((applyWarpSendThrough s.running (some "172.16.0.2".toList)).2,
        (applyWarpSendThrough s.file (some "172.16.0.2".toList)).2)) = some (true, false) := by
    decide +kernel
  obtain ⟨s', hs', hbound⟩ := Option.map_eq_some_iff.1 hrun
  have heq := hclaim goodHost _ _ s' (fun _ _ => rfl) rfl hs'
  obtain ⟨hrunning, hfile⟩ := Prod.mk.inj hbound
  rw [heq, hfile] at hrunning
  cases hrunning

/-- The file and the running Xray with an outbound that is bound already. -/
def boundOutbound : State :=
  let config := smallConfig (freedomOutbound.set "sendThrough".toList (.str "172.16.0.2".toList))
  ⟨config, config⟩

/-- The client comes into the running Xray. -/
theorem running_eq_file_bound : ∃ s', runFrom (step goodHost) boundOutbound [addUser] = some s' ∧
    s'.running = s'.file := by
  have hcovered : Allowed (step goodHost) (Covered goodHost) boundOutbound [addUser] := by
    refine ⟨fun config path hplan => ?_, fun _ _ => trivial⟩
    cases hplan
    rfl
  exact ⟨_, rfl, running_eq_file rfl hcovered rfl⟩

end VpnBot.XrayConfig
