import VpnBot.XrayConfig.ApiApply

/-!
# What the adapter leaves alone

The edits of the config file in every apply mode, for an adapter with a tag or without one: `Adapter.edited` is
what a method writes, `configStep` a call that returns.  `Adapter.outside` is the config with the region of the bot
blanked out: the clients and the short ids of the inbound, and the `sendThrough` of the freedom
outbounds.  No call changes it.

A call that returns has written its candidate.  Whether the tests of the config and the apply succeed is
left open here: a call whose candidate is refused does not return.
-/

namespace Py.Json

theorem setField_setField (fs : List (Text × Json)) (k : Text) (v v' : Json) :
    setField (setField fs k v) k v' = setField fs k v' := by
  induction fs with
  | nil => simp [setField]
  | cons p fs ih =>
    by_cases hp : p.1 = k
    · simp [setField, hp]
    · simp [setField, hp, ih]

/-- The later assignment to a key stays. -/
theorem set_set (d : Json) (k : Text) (v v' : Json) : (d.set k v).set k v' = d.set k v' := by
  cases d with
  | obj fs => exact congrArg obj (setField_setField fs k v v')
  | _ => rfl

theorem setField_comm {fs : List (Text × Json)} {k k' : Text} (v v' : Json) (hne : k ≠ k')
    (hk : (fs.find? fun p => p.1 = k).isSome) :
    setField (setField fs k v) k' v' = setField (setField fs k' v') k v := by
  induction fs with
  | nil => cases hk
  | cons p fs ih =>
    by_cases hp : p.1 = k
    · simp [setField, hp, hne]
    · rw [List.find?_cons_of_neg (by simpa using hp)] at hk
      by_cases hp' : p.1 = k'
      · simp [setField, hp', Ne.symm hne]
      · simp [setField, hp, hp', ih hk]

/-- Assignments to two keys, one of which is there, do not depend on their order. -/
theorem set_comm {d : Json} {k k' : Text} (v v' : Json) (hne : k ≠ k') (hk : (d.field? k).isSome) :
    (d.set k v).set k' v' = (d.set k' v').set k v := by
  cases d with
  | obj fs =>
    refine congrArg obj (setField_comm v v' hne ?_)
    simpa [field?] using hk
  | _ => rfl

theorem filter_setField (fs : List (Text × Json)) (k : Text) (v : Json) :
    (setField fs k v).filter (fun p => p.1 ≠ k) = fs.filter fun p => p.1 ≠ k := by
  induction fs with
  | nil => simp [setField]
  | cons p fs ih =>
    by_cases hp : p.1 = k
    · simp [setField, hp]
    · rw [setField, if_neg hp, List.filter_cons_of_pos (by simpa using hp),
        List.filter_cons_of_pos (by simpa using hp), ih]

theorem erase_set (d : Json) (k : Text) (v : Json) : (d.set k v).erase k = d.erase k := by
  cases d with
  | obj fs => exact congrArg obj (filter_setField fs k v)
  | _ => rfl

theorem erase_erase (d : Json) (k : Text) : (d.erase k).erase k = d.erase k := by
  cases d with
  | obj fs =>
    refine congrArg obj ?_
    rw [List.filter_filter]
    simp
  | _ => rfl

theorem field_erase_of_ne (d : Json) {k k' : Text} (h : k' ≠ k) : (d.erase k).field k' = d.field k' := by
  cases d with
  | obj fs =>
    have hfind : (fs.filter fun p => p.1 ≠ k).find? (fun p => p.1 = k') = fs.find? fun p => p.1 = k' := by
      induction fs with
      | nil => rfl
      | cons p fs ih =>
        by_cases hp : p.1 = k
        · rw [List.filter_cons_of_neg (by simpa using hp), ih,
            List.find?_cons_of_neg (by simpa [hp] using Ne.symm h)]
        · rw [List.filter_cons_of_pos (by simpa using hp), List.find?_cons, List.find?_cons, ih]
    rw [field, field, erase, field?, field?, hfind]
  | _ => rfl

theorem isObj_erase (d : Json) (k : Text) : (d.erase k).isObj = d.isObj := by
  cases d <;> rfl

theorem isSome_field?_of_isObj {d : Json} {k : Text} (h : (d.field k).isObj = true) :
    (d.field? k).isSome := by
  unfold field at h
  cases hfield : d.field? k with
  | none =>
    rw [hfield] at h
    cases h
  | some v => rfl

theorem isObj_of_field {d : Json} {k : Text} (h : (d.field k).isObj = true) : d.isObj = true := by
  cases d with
  | obj fs => rfl
  | _ => cases h

end Py.Json

namespace VpnBot.XrayConfig

open Py Sys

variable {adapter : Adapter} {config config' inbound e : Json} {op : Op} {provider : SendThrough}
  {path : Path} {p : Json → Bool} {l : List Json}

/-! ### The file -/

/-- `_target_inbound` looks among these inbounds; without a tag, for any VLESS inbound with REALITY. -/
def Adapter.marks (adapter : Adapter) (inbound : Json) : Bool :=
  if adapter.inboundTag.isEmpty then inbound.isObj && isVlessReality inbound
  else hasTag adapter.inboundTag inbound

/-- `_target_inbound`. -/
def Adapter.findTarget (adapter : Adapter) (config : Json) : Option Json :=
  (config.field "inbounds".toList).asArr.bind fun inbounds =>
    if adapter.inboundTag.isEmpty then
      if (inbounds.filter adapter.marks).length = 1 then inbounds.find? adapter.marks else none
    else (inbounds.find? adapter.marks).filter adapter.isTargetInbound

/-- The first item with the property is changed. -/
def mapFirst (p : Json → Bool) (f : Json → Json) : List Json → List Json
  | [] => []
  | v :: l => if p v then f v :: l else v :: mapFirst p f l

/-- The config after the inbound that `_target_inbound` returned has been changed in place. -/
def Adapter.mapTarget (adapter : Adapter) (f : Json → Json) (config : Json) : Json :=
  config.set "inbounds".toList
    (.arr (mapFirst adapter.marks f (config.field "inbounds".toList).items))

/-- The config that a method writes before the outbounds are bound, if it writes one. -/
def Adapter.edited (adapter : Adapter) (op : Op) (config : Json) : Option (Option Json) := do
  let inbound ← adapter.findTarget config
  let edit ← op.edit inbound
  return edit.map fun e => adapter.mapTarget (fun _ => e.1) config

/-- A call of a method, and what the provider returns to it. -/
structure ConfigCall where
  op : Op
  provider : SendThrough

/-- A call that returns, on the file. -/
def configStep (adapter : Adapter) (config : Json) (call : ConfigCall) : Option Json :=
  if adapter.returnsAtOnce call.op then some config
  else if !call.op.labelsSafe || !config.isObj then none
  else
    match adapter.edited call.op config with
    | none => none
    | some none => some config
    | some (some config') => some (writeTempConfig call.provider config')

/-! ### The region of the bot -/

/-- An inbound without its clients and its short ids. -/
def blankInbound (inbound : Json) : Json :=
  let blank := setClients inbound []
  if (realitySettings inbound).isSome then setShortIds blank [] else blank

/-- A freedom outbound without `sendThrough`. -/
def blankOutbound (outbound : Json) : Json :=
  if !outbound.isObj || !(outbound.field "protocol".toList).isStr "freedom".toList then outbound
  else outbound.erase "sendThrough".toList

def blankOutbounds (config : Json) : Json :=
  match (config.field "outbounds".toList).asArr with
  | none => config
  | some outbounds => config.set "outbounds".toList (.arr (outbounds.map blankOutbound))

/-- The config outside of the region of the bot. -/
def Adapter.outside (adapter : Adapter) (config : Json) : Json :=
  blankOutbounds (adapter.mapTarget blankInbound config)

/-! ### One item of a list -/

theorem find?_mapFirst {t : Json} (h : l.find? p = some t) (he : p e = true) :
    (mapFirst p (fun _ => e) l).find? p = some e := by
  induction l with
  | nil => cases h
  | cons v l ih =>
    rw [mapFirst]
    split
    · exact List.find?_cons_of_pos he
    · rename_i hv
      rw [List.find?_cons_of_neg hv] at h ⊢
      exact ih h

theorem length_filter_mapFirst (he : p e = true) :
    ((mapFirst p (fun _ => e) l).filter p).length = (l.filter p).length := by
  induction l with
  | nil => rfl
  | cons v l ih =>
    rw [mapFirst]
    split
    · rename_i hv
      rw [List.filter_cons_of_pos he, List.filter_cons_of_pos hv, List.length_cons, List.length_cons]
    · rename_i hv
      rw [List.filter_cons_of_neg hv, List.filter_cons_of_neg hv, ih]

/-- A change of the item after another one. -/
theorem mapFirst_mapFirst {t : Json} {f : Json → Json} (h : l.find? p = some t) (he : p e = true)
    (hf : f e = f t) : mapFirst p f (mapFirst p (fun _ => e) l) = mapFirst p f l := by
  induction l with
  | nil => cases h
  | cons v l ih =>
    rw [mapFirst, mapFirst]
    split
    · rename_i hv
      rw [List.find?_cons_of_pos hv] at h
      cases h
      rw [mapFirst, if_pos he, hf]
    · rename_i hv
      rw [List.find?_cons_of_neg hv] at h
      rw [mapFirst, if_neg hv, ih h]

/-! ### The target -/

theorem findTarget_eq_some (h : adapter.findTarget config = some inbound) :
    ∃ l, (config.field "inbounds".toList).asArr = some l ∧ l.find? adapter.marks = some inbound := by
  obtain ⟨l, hl, h⟩ := Option.bind_eq_some_iff.1 h
  refine ⟨l, hl, ?_⟩
  split at h
  · exact (Option.ite_none_right_eq_some.1 h).2
  · exact (Option.filter_eq_some_iff.1 h).1

theorem isVless_of_findTarget (h : adapter.findTarget config = some inbound) :
    inbound.isObj = true ∧ isVless inbound = true := by
  obtain ⟨l, hl, hfind⟩ := findTarget_eq_some h
  have hmarks := List.find?_some hfind
  obtain ⟨l', hl', h⟩ := Option.bind_eq_some_iff.1 h
  unfold Adapter.marks at hmarks
  split at h
  · rename_i htag
    rw [if_pos htag] at hmarks
    obtain ⟨hobj, hreality⟩ := Bool.and_eq_true_iff.1 hmarks
    exact ⟨hobj, (Bool.and_eq_true_iff.1 (Bool.and_eq_true_iff.1 hreality).1).1⟩
  · rename_i htag
    rw [if_neg htag] at hmarks
    refine ⟨(Bool.and_eq_true_iff.1 hmarks).1, ?_⟩
    have htarget := (Option.filter_eq_some_iff.1 h).2
    unfold Adapter.isTargetInbound at htarget
    split at htarget
    · exact (Bool.and_eq_true_iff.1 (Bool.and_eq_true_iff.1 htarget).1).1
    · exact htarget

/-! ### Edits of the inbound -/

/-- What an edit makes of an inbound. -/
inductive Patched (inbound : Json) : Json → Prop
  | clients (clients : List Json) : Patched inbound (setClients inbound clients)
  | shortIds (hreality : (realitySettings inbound).isSome) (shortIds : List Json) :
      Patched inbound (setShortIds inbound shortIds)
  | both (hreality : (realitySettings inbound).isSome) (clients shortIds : List Json) :
      Patched inbound (setShortIds (setClients inbound clients) shortIds)

def Op.clientsAfter (clients : List Json) : Op → List Json
  | .addClient uuid email _ flow _ =>
    let base := [("id".toList, Json.str uuid), ("email".toList, .str email)]
    clients ++ [Json.obj (if flow.isEmpty then base else base ++ [("flow".toList, .str flow)])]
  | .removeClient uuid email _ _ => clients.filter fun client => !matchesClientForRemove uuid email client
  | .renameClients renames _ => clients.map fun client => (renameClient renames client).1
  | .ensureShortId _ => clients

/-- What the settings of an inbound are must not change with an edit. -/
structure SameKind (inbound e : Json) : Prop where
  isObj : e.isObj = inbound.isObj
  tag : ∀ tag, hasTag tag e = hasTag tag inbound
  vless : isVless e = isVless inbound
  reality : isVlessReality e = isVlessReality inbound

theorem SameKind.trans {e' : Json} (h : SameKind inbound e) (h' : SameKind e e') : SameKind inbound e' :=
  ⟨h'.isObj.trans h.isObj, fun tag => (h'.tag tag).trans (h.tag tag), h'.vless.trans h.vless,
    h'.reality.trans h.reality⟩

theorem sameKind_setClients (hobj : inbound.isObj = true) (clients : List Json) :
    SameKind inbound (setClients inbound clients) := by
  have hvless : isVless (setClients inbound clients) = isVless inbound := by
    rw [isVless, isVless, setClients, Json.field_set_of_ne _ _ (by decide), Json.field_set_self hobj,
      Json.isObj_set]
  refine ⟨Json.isObj_set .., fun tag => hasTag_setClients clients, hvless, ?_⟩
  rw [isVlessReality, isVlessReality, hvless, setClients, Json.field_set_of_ne _ _ (by decide)]

theorem sameKind_setShortIds (hobj : inbound.isObj = true) (shortIds : List Json) :
    SameKind inbound (setShortIds inbound shortIds) := by
  have hvless : isVless (setShortIds inbound shortIds) = isVless inbound := by
    rw [isVless, isVless, setShortIds, Json.field_set_of_ne _ _ (by decide),
      Json.field_set_of_ne _ _ (by decide)]
  refine ⟨Json.isObj_set .., fun tag => hasTag_setShortIds shortIds, hvless, ?_⟩
  rw [isVlessReality, isVlessReality, hvless, setShortIds, Json.field_set_self hobj, Json.isObj_set,
    Json.field_set_of_ne _ _ (by decide)]

theorem realitySettings_setClients (clients : List Json) :
    realitySettings (setClients inbound clients) = realitySettings inbound := by
  rw [realitySettings, realitySettings, setClients, Json.field_set_of_ne _ _ (by decide)]

theorem Patched.sameKind (h : Patched inbound e) (hobj : inbound.isObj = true) : SameKind inbound e := by
  cases h with
  | clients clients => exact sameKind_setClients hobj clients
  | shortIds _ shortIds => exact sameKind_setShortIds hobj shortIds
  | both _ clients shortIds =>
    have hclients := sameKind_setClients hobj clients
    exact hclients.trans (sameKind_setShortIds (hclients.isObj.trans hobj) shortIds)

/-! ### The blank inbound -/

theorem isObj_reality (h : (realitySettings inbound).isSome) :
    ((inbound.field "streamSettings".toList).field "realitySettings".toList).isObj = true := by
  unfold realitySettings at h
  dsimp only at h
  split at h
  · assumption
  · cases h

theorem setClients_setClients (hobj : inbound.isObj = true) (clients clients' : List Json) :
    setClients (setClients inbound clients) clients' = setClients inbound clients' := by
  rw [setClients, setClients, Json.field_set_self hobj, Json.set_set, Json.set_set, setClients]

theorem setShortIds_setShortIds (h : (realitySettings inbound).isSome) (shortIds shortIds' : List Json) :
    setShortIds (setShortIds inbound shortIds) shortIds' = setShortIds inbound shortIds' := by
  have hstream := Json.isObj_of_field (isObj_reality h)
  rw [setShortIds, setShortIds, Json.field_set_self (Json.isObj_of_field hstream), Json.set_set, Json.field_set_self hstream, Json.set_set,
    Json.set_set, setShortIds]

theorem setClients_setShortIds (hsettings : (inbound.field "settings".toList).isObj = true)
    (clients shortIds : List Json) :
    setClients (setShortIds inbound shortIds) clients = setShortIds (setClients inbound clients) shortIds := by
  have hfield : (setShortIds inbound shortIds).field "settings".toList = inbound.field "settings".toList :=
    Json.field_set_of_ne _ _ (by decide)
  have hfield' : (setClients inbound clients).field "streamSettings".toList =
      inbound.field "streamSettings".toList := Json.field_set_of_ne _ _ (by decide)
  rw [setClients, hfield]
  unfold setShortIds
  dsimp only
  rw [hfield', setClients]
  exact (Json.set_comm _ _ (by decide) (Json.isSome_field?_of_isObj hsettings)).symm

theorem realitySettings_setShortIds (h : (realitySettings inbound).isSome) (shortIds : List Json) :
    (realitySettings (setShortIds inbound shortIds)).isSome := by
  have hreality := isObj_reality h
  have hstream := Json.isObj_of_field hreality
  have hobj : ((inbound.field "streamSettings".toList).field "realitySettings".toList |>.set
      "shortIds".toList (.arr shortIds)).isObj = true := (Json.isObj_set ..).trans hreality
  rw [realitySettings, setShortIds, Json.field_set_self (Json.isObj_of_field hstream),
    Json.field_set_self hstream, if_pos hobj]
  rfl

/-- **An edit changes nothing but the clients and the short ids.** -/
theorem Patched.blankInbound (h : Patched inbound e) (hvless : isVless inbound = true) :
    blankInbound e = blankInbound inbound := by
  have hsettings : (inbound.field "settings".toList).isObj = true := (Bool.and_eq_true_iff.1 hvless).2
  have hobj := Json.isObj_of_field hsettings
  cases h with
  | clients clients =>
    rw [XrayConfig.blankInbound, XrayConfig.blankInbound, realitySettings_setClients,
      setClients_setClients hobj]
  | shortIds hreality shortIds =>
    rw [XrayConfig.blankInbound, XrayConfig.blankInbound, if_pos hreality,
      if_pos (realitySettings_setShortIds hreality shortIds), setClients_setShortIds hsettings]
    have hreality' : (realitySettings (setClients inbound [])).isSome := by
      rwa [realitySettings_setClients]
    exact setShortIds_setShortIds hreality' _ _
  | both hreality clients shortIds =>
    rw [← realitySettings_setClients clients] at hreality
    have hsettings' : ((setClients inbound clients).field "settings".toList).isObj = true := by
      rw [setClients, Json.field_set_self hobj, Json.isObj_set, hsettings]
    rw [XrayConfig.blankInbound, XrayConfig.blankInbound,
      if_pos (realitySettings_setShortIds hreality shortIds), setClients_setShortIds hsettings',
      setClients_setClients hobj]
    rw [realitySettings_setClients] at hreality
    rw [if_pos hreality]
    have hreality' : (realitySettings (setClients inbound [])).isSome := by
      rwa [realitySettings_setClients]
    exact setShortIds_setShortIds hreality' _ _

/-! ### The edits of the methods -/

theorem clientsOf_setClients (hsettings : (inbound.field "settings".toList).isObj = true)
    (clients : List Json) : clientsOf (setClients inbound clients) = some clients := by
  rw [clientsOf, setClients, Json.field_set_self (Json.isObj_of_field hsettings), Json.field?_set hsettings,
    if_pos rfl]
  rfl

theorem clientsOf_setShortIds (shortIds : List Json) :
    clientsOf (setShortIds inbound shortIds) = clientsOf inbound := by
  rw [clientsOf, setShortIds, Json.field_set_of_ne _ _ (by decide), clientsOf]

/-- What the short-id helpers make of an inbound, and what they answer. -/
inductive ShortIdPatch (inbound : Json) : Json → Bool → Prop
  | same : ShortIdPatch inbound inbound false
  | patched (hreality : (realitySettings inbound).isSome) (shortIds : List Json) :
      ShortIdPatch inbound (setShortIds inbound shortIds) true

theorem shortIdPatch_of_addShortId {shortId : Text} {b : Bool}
    (h : addShortId inbound shortId = some (e, b)) : ShortIdPatch inbound e b := by
  simp only [addShortId, Option.bind_eq_bind, Option.bind_eq_some_iff] at h
  obtain ⟨reality, hreality, shortIds, -, h⟩ := h
  split at h <;> cases h
  · exact .same
  · exact .patched (by rw [hreality]; rfl) _

theorem shortIdPatch_of_removeShortId {shortId : Text} {b : Bool}
    (h : removeShortId inbound shortId = some (e, b)) : ShortIdPatch inbound e b := by
  simp only [removeShortId, Option.bind_eq_bind, Option.bind_eq_some_iff] at h
  obtain ⟨reality, hreality, h⟩ := h
  split at h
  · cases h
    exact .same
  · split at h <;> cases h
    · exact .same
    · exact .patched (by rw [hreality]; rfl) _

theorem renameClient_of_not_changed {renames : List (Text × Text)} {client : Json}
    (h : (renameClient renames client).2 = false) : (renameClient renames client).1 = client := by
  unfold renameClient at h ⊢
  split
  · rename_i fs uuid hid
    rw [hid] at h
    dsimp only at h ⊢
    split
    · rename_i desired hdesired
      rw [hdesired] at h
      dsimp only at h ⊢
      split_ifs at h ⊢
      rfl
    · rfl
  · rfl

/-- The written inbound of an edit. -/
structure Edited (op : Op) (inbound e : Json) : Prop where
  patched : Patched inbound e
  clients : clientsOf e = (clientsOf inbound).map fun clients => op.clientsAfter clients

/-- What is left when an edit has nothing to write. -/
def Idle (op : Op) (inbound : Json) : Prop :=
  ∀ clients, clientsOf inbound = some clients → op.clientsAfter clients = clients

theorem edited_of_setClients {clients after : List Json}
    (hsettings : (inbound.field "settings".toList).isObj = true) (hclients : clientsOf inbound = some clients)
    (hafter : after = op.clientsAfter clients) : Edited op inbound (setClients inbound after) := by
  refine ⟨.clients _, ?_⟩
  rw [clientsOf_setClients hsettings, hclients, hafter]
  rfl

theorem edited_of_shortIdPatch {clients after : List Json} {b : Bool}
    (hsettings : (inbound.field "settings".toList).isObj = true) (hclients : clientsOf inbound = some clients)
    (hafter : after = op.clientsAfter clients) (h : ShortIdPatch (setClients inbound after) e b) :
    Edited op inbound e := by
  cases h with
  | same => exact edited_of_setClients hsettings hclients hafter
  | patched hreality shortIds =>
    rw [realitySettings_setClients] at hreality
    refine ⟨.both hreality _ _, ?_⟩
    rw [clientsOf_setShortIds, clientsOf_setClients hsettings, hclients, hafter]
    rfl

inductive EditEnds (op : Op) (inbound : Json) : Option Edit → Prop
  | idle (h : Idle op inbound) : EditEnds op inbound none
  | edited (e : Json) (path : Path) (h : Edited op inbound e) : EditEnds op inbound (some (e, path))

theorem idle_of_length {uuid email shortId : Option Text} {dropShortId : Bool} {clients : List Json}
    (hclients : clientsOf inbound = some clients)
    (h : (clients.filter fun client => !matchesClientForRemove uuid email client).length = clients.length) :
    Idle (.removeClient uuid email shortId dropShortId) inbound := by
  intro clients' hclients'
  cases hclients.symm.trans hclients'
  exact List.filter_sublist.eq_of_length h

theorem idle_of_any {renames : List (Text × Text)} {preferRestart : Bool} {clients : List Json}
    (hclients : clientsOf inbound = some clients)
    (h : ¬(clients.map (renameClient renames)).any Prod.snd = true) :
    Idle (.renameClients renames preferRestart) inbound := by
  intro clients' hclients'
  cases hclients.symm.trans hclients'
  rw [Bool.not_eq_true, List.any_map, List.any_eq_false] at h
  calc clients.map (fun client => (renameClient renames client).1)
      = clients.map id := List.map_congr_left fun client hclient =>
        renameClient_of_not_changed (Bool.not_eq_true _ ▸ h client hclient)
    _ = clients := List.map_id clients

/-- **What the edit of a method does.** -/
theorem editEnds {r : Option Edit} (hsettings : (inbound.field "settings".toList).isObj = true)
    (h : op.edit inbound = some r) : EditEnds op inbound r := by
  cases op with
  | addClient uuid email shortId flow manageShortId =>
    simp only [Op.edit, addClient, Option.bind_eq_bind, Option.map_eq_some_iff,
      Option.bind_eq_some_iff] at h
    obtain ⟨edit, ⟨clients, hclients, hedit⟩, rfl⟩ := h
    split at hedit
    · cases hedit
    · split at hedit
      · cases hedit
        exact .edited _ _ (edited_of_setClients hsettings hclients rfl)
      · obtain ⟨⟨e, inserted⟩, hadd, hedit⟩ := Option.bind_eq_some_iff.1 hedit
        cases hedit
        exact .edited _ _ (edited_of_shortIdPatch hsettings hclients rfl (shortIdPatch_of_addShortId hadd))
  | removeClient uuid email shortId dropShortId =>
    simp only [Op.edit, removeClient, Option.bind_eq_bind, Option.bind_eq_some_iff] at h
    obtain ⟨clients, hclients, h⟩ := h
    split at h
    · split at h <;> cases h
      · exact .edited _ _ (edited_of_setClients hsettings hclients rfl)
      · rename_i hsame
        exact .idle (idle_of_length hclients (by simpa using hsame))
    · obtain ⟨⟨e, dropped⟩, hdrop, h⟩ := Option.bind_eq_some_iff.1 h
      have hpatch := shortIdPatch_of_removeShortId hdrop
      split at h
      · cases h
        exact .edited _ _ (edited_of_shortIdPatch hsettings hclients rfl hpatch)
      · split at h <;> cases h
        · exact .edited _ _ (edited_of_shortIdPatch hsettings hclients rfl hpatch)
        · rename_i hsame
          exact .idle (idle_of_length hclients (by simpa using hsame))
  | renameClients renames preferRestart =>
    simp only [Op.edit, renameClients, Option.bind_eq_bind, Option.bind_eq_some_iff] at h
    obtain ⟨clients, hclients, h⟩ := h
    split at h <;> cases h
    · exact .edited _ _ (edited_of_setClients hsettings hclients (List.map_map ..))
    · exact .idle (idle_of_any hclients ‹_›)
  | ensureShortId shortId =>
    simp only [Op.edit, ensureShortId, Option.bind_eq_bind, Option.bind_eq_some_iff] at h
    obtain ⟨⟨e, inserted⟩, hadd, h⟩ := h
    cases shortIdPatch_of_addShortId hadd with
    | same =>
      cases h
      exact .idle fun _ _ => rfl
    | patched hreality shortIds =>
      cases h
      refine .edited _ _ ⟨.shortIds hreality _, ?_⟩
      rw [clientsOf_setShortIds]
      exact Option.map_id_apply.symm

/-! ### Writing the file -/

theorem asArr_mapTarget {f : Json → Json} (h : (config.field "inbounds".toList).asArr = some l) :
    ((adapter.mapTarget f config).field "inbounds".toList).asArr = some (mapFirst adapter.marks f l) := by
  rw [Adapter.mapTarget, Json.field_set_self (Json.isObj_of_asArr_field h), items_of_asArr h]
  rfl

theorem findTarget_mapTarget (h : adapter.findTarget config = some inbound) (he : SameKind inbound e) :
    adapter.findTarget (adapter.mapTarget (fun _ => e) config) = some e := by
  obtain ⟨l, hl, hfind⟩ := findTarget_eq_some h
  have hmarks : adapter.marks e = adapter.marks inbound := by
    rw [Adapter.marks, Adapter.marks, he.isObj, he.reality, he.tag]
  have htarget : adapter.isTargetInbound e = adapter.isTargetInbound inbound := by
    rw [Adapter.isTargetInbound, Adapter.isTargetInbound, he.vless, he.reality]
  have hpos : adapter.marks e = true := hmarks.trans (List.find?_some hfind)
  rw [Adapter.findTarget, hl] at h
  rw [Adapter.findTarget, asArr_mapTarget hl]
  dsimp only [Option.bind_some] at h ⊢
  rw [length_filter_mapFirst hpos, find?_mapFirst hfind hpos]
  rw [hfind] at h
  split_ifs at h ⊢
  · rfl
  · rw [Option.filter_eq_some_iff] at h ⊢
    exact ⟨rfl, htarget.trans h.2⟩

theorem findTarget_writeTempConfig :
    adapter.findTarget (writeTempConfig provider config) = adapter.findTarget config := by
  rw [Adapter.findTarget, field_writeTempConfig (by decide), Adapter.findTarget]

theorem blankOutbound_bindOutbound (tunnelIp : Option Text) (outbound : Json) :
    blankOutbound (bindOutbound tunnelIp outbound).1 = blankOutbound outbound := by
  unfold bindOutbound
  split
  · rfl
  · split
    · split
      · rfl
      · rw [blankOutbound, blankOutbound, Json.isObj_set, Json.field_set_of_ne _ _ (by decide),
          Json.erase_set]
        rw [if_neg ‹_›, if_neg ‹_›]
    · split
      · rw [blankOutbound, blankOutbound, Json.isObj_erase, Json.field_erase_of_ne _ (by decide),
          Json.erase_erase]
        rw [if_neg ‹_›, if_neg ‹_›]
      · rfl

theorem outside_writeTempConfig : adapter.outside (writeTempConfig provider config) = adapter.outside config := by
  cases provider with
  | unset | raised => rfl
  | value tunnelIp =>
    rw [writeTempConfig, applyWarpSendThrough]
    cases hl : (config.field "outbounds".toList).asArr with
    | none => rfl
    | some l =>
      have hobj := Json.isObj_of_asArr_field hl
      have harr := Json.eq_arr_of_asArr hl
      have hthere : (config.field? "outbounds".toList).isSome := by
        rw [Json.field?_of_field_arr harr]
        rfl
      dsimp only
      rw [Adapter.outside, Adapter.outside, Adapter.mapTarget, Adapter.mapTarget,
        Json.field_set_of_ne _ _ (by decide), Json.set_comm _ _ (by decide) hthere, blankOutbounds,
        blankOutbounds, Json.field_set_self ((Json.isObj_set ..).trans hobj),
        Json.field_set_of_ne _ _ (by decide), harr]
      simp only [Json.asArr, Json.set_set, List.map_map]
      refine congrArg _ (congrArg _ (List.map_congr_left fun outbound _ => ?_))
      exact blankOutbound_bindOutbound tunnelIp outbound

theorem outside_mapTarget (h : adapter.findTarget config = some inbound) (he : Patched inbound e) :
    adapter.outside (adapter.mapTarget (fun _ => e) config) = adapter.outside config := by
  obtain ⟨l, hl, hfind⟩ := findTarget_eq_some h
  obtain ⟨hobj, hvless⟩ := isVless_of_findTarget h
  have hsame := he.sameKind hobj
  have hmarks : adapter.marks e = true := by
    rw [← List.find?_some hfind, Adapter.marks, Adapter.marks, hsame.isObj, hsame.reality, hsame.tag]
  have hmap : adapter.mapTarget blankInbound (adapter.mapTarget (fun _ => e) config) =
      adapter.mapTarget blankInbound config := by
    rw [Adapter.mapTarget, items_of_asArr (asArr_mapTarget hl),
      mapFirst_mapFirst hfind hmarks (he.blankInbound hvless), Adapter.mapTarget, Json.set_set,
      Adapter.mapTarget, items_of_asArr hl]
  rw [Adapter.outside, hmap, Adapter.outside]

/-! ### Steps -/

/-- What a call that returns does to the file. -/
inductive Written (adapter : Adapter) (config : Json) (call : ConfigCall) : Json → Prop
  | atOnce (h : adapter.returnsAtOnce call.op = true) : Written adapter config call config
  | idle (inbound : Json) (hlabels : call.op.labelsSafe = true)
      (htarget : adapter.findTarget config = some inbound) (hedit : call.op.edit inbound = some none)
      (h : Idle call.op inbound) : Written adapter config call config
  | edited (inbound e : Json) (path : Path) (hlabels : call.op.labelsSafe = true)
      (htarget : adapter.findTarget config = some inbound)
      (hedit : call.op.edit inbound = some (some (e, path))) (h : Edited call.op inbound e) :
      Written adapter config call (writeTempConfig call.provider (adapter.mapTarget (fun _ => e) config))

theorem written_of_configStep {call : ConfigCall} (h : configStep adapter config call = some config') :
    Written adapter config call config' := by
  unfold configStep at h
  split at h
  · cases h
    exact .atOnce ‹_›
  · split at h
    · cases h
    · rename_i hlabels
      simp only [Bool.or_eq_true, Bool.not_eq_true', not_or, Bool.not_eq_false] at hlabels
      cases htarget : adapter.findTarget config with
      | none => simp [Adapter.edited, htarget] at h
      | some inbound =>
        have hsettings := (Bool.and_eq_true_iff.1 (isVless_of_findTarget htarget).2).2
        cases hedit : call.op.edit inbound with
        | none => simp [Adapter.edited, htarget, hedit] at h
        | some r =>
          have hedited : adapter.edited call.op config =
              some (r.map fun e => adapter.mapTarget (fun _ => e.1) config) := by
            simp [Adapter.edited, htarget, hedit]
          rw [hedited] at h
          cases editEnds hsettings hedit with
          | idle hidle =>
            cases h
            exact .idle inbound hlabels.1 htarget hedit hidle
          | edited e path he =>
            cases h
            exact .edited inbound e path hlabels.1 htarget hedit he

/-- **A call changes nothing outside of the region of the bot.** -/
theorem Written.outside {call : ConfigCall} (h : Written adapter config call config') :
    adapter.outside config' = adapter.outside config := by
  cases h with
  | atOnce _ => rfl
  | idle _ _ _ _ _ => rfl
  | edited inbound e path _ htarget _ he => rw [outside_writeTempConfig, outside_mapTarget htarget he.patched]

theorem Written.target {call : ConfigCall} (h : Written adapter config call config')
    (hreads : adapter.returnsAtOnce call.op = false) :
    call.op.labelsSafe = true ∧ ∃ inbound inbound', adapter.findTarget config = some inbound ∧
      (call.op.edit inbound).isSome ∧ adapter.findTarget config' = some inbound' ∧
      clientsOf inbound' = (clientsOf inbound).map fun clients => call.op.clientsAfter clients := by
  cases h with
  | atOnce h => exact absurd h (Bool.eq_false_iff.1 hreads)
  | idle inbound hlabels htarget hedit hidle =>
    refine ⟨hlabels, inbound, inbound, htarget, by rw [hedit]; rfl, htarget, ?_⟩
    cases hclients : clientsOf inbound with
    | none => rfl
    | some clients => exact congrArg some (hidle clients hclients).symm
  | edited inbound e path hlabels htarget hedit he =>
    refine ⟨hlabels, inbound, e, htarget, by rw [hedit]; rfl, ?_, he.clients⟩
    rw [findTarget_writeTempConfig]
    exact findTarget_mapTarget htarget (he.patched.sameKind (isVless_of_findTarget htarget).1)

end VpnBot.XrayConfig
