import VpnBot.Python.Json
import VpnBot.System.Run

/-!
# The Xray config adapter in api mode

`XrayConfigAdapter` and `apply_warp_send_through` of `src/adapters/xray_config.py` with
`XRAY_APPLY_MODE=api`: the edits of the inbound of the adapter, the `sendThrough` that every write puts on the
freedom outbounds, and the three ways of the new file into the running Xray.  An adapter is made for each
of the two inbounds of the bot; both write one file.

A call that returns is a step.  A call that raises is none: it has not replaced the file, or has put the
backup back.  `xray -test` and what a reload of the service loads are parameters; a restart loads the file,
and `rmi` with `adi` replaces the inbound of the tag.

Not modelled: the locks, the backups, the temporary files, and the check of the labels in the running Xray after
a rename.
-/

namespace Py.Json

/-- `del d[k]` for a dictionary `d`. -/
def erase : Json → Text → Json
  | .obj fs, k => .obj (fs.filter fun p => p.1 ≠ k)
  | d, _ => d

end Py.Json

namespace VpnBot.XrayConfig

open Py Sys

/-! ### Outbounds -/

/-- The loop body of `apply_warp_send_through`, and whether the outbound changed. -/
def bindOutbound (tunnelIp : Option Text) (outbound : Json) : Json × Bool :=
  if !outbound.isObj || !(outbound.field "protocol".toList).isStr "freedom".toList then (outbound, false)
  else
    match tunnelIp.filter fun ip => !ip.isEmpty with
    | some ip =>
      if (outbound.field "sendThrough".toList).isStr ip then (outbound, false)
      else (outbound.set "sendThrough".toList (.str ip), true)
    | none =>
      if (outbound.field? "sendThrough".toList).isSome then (outbound.erase "sendThrough".toList, true)
      else (outbound, false)

/-- `apply_warp_send_through`: the config, and whether it changed. -/
def applyWarpSendThrough (config : Json) (tunnelIp : Option Text) : Json × Bool :=
  match (config.field "outbounds".toList).asArr with
  | none => (config, false)
  | some outbounds =>
    let bound := outbounds.map (bindOutbound tunnelIp)
    (config.set "outbounds".toList (.arr (bound.map Prod.fst)), bound.any Prod.snd)

/-- The provider `warp_send_through`: there is none, it raises, or it returns. -/
inductive SendThrough
  | unset
  | raised
  | value (tunnelIp : Option Text)

/-- What `_write_temp_config` writes. -/
def writeTempConfig (provider : SendThrough) (config : Json) : Json :=
  match provider with
  | .unset | .raised => config
  | .value tunnelIp => (applyWarpSendThrough config tunnelIp).1

/-! ### The inbound of the adapter -/

/-- `XrayConfigAdapter` in api mode. -/
structure Adapter where
  inboundTag : Text
  requireReality : Bool

def hasTag (tag : Text) (inbound : Json) : Bool :=
  inbound.isObj && (inbound.field "tag".toList).isStr tag

/-- `_is_vless`. -/
def isVless (inbound : Json) : Bool :=
  (inbound.field "protocol".toList).isStr "vless".toList && (inbound.field "settings".toList).isObj

/-- `_is_vless_reality`. -/
def isVlessReality (inbound : Json) : Bool :=
  isVless inbound && (inbound.field "streamSettings".toList).isObj &&
    ((inbound.field "streamSettings".toList).field "security".toList).isStr "reality".toList

/-- `_is_target_inbound`. -/
def Adapter.isTargetInbound (adapter : Adapter) (inbound : Json) : Bool :=
  if adapter.requireReality then isVlessReality inbound else isVless inbound

/-- `_target_inbound`. -/
def Adapter.targetInbound (adapter : Adapter) (config : Json) : Option Json :=
  (config.field "inbounds".toList).asArr.bind fun inbounds =>
    (inbounds.find? (hasTag adapter.inboundTag)).filter adapter.isTargetInbound

/-- The first inbound of the tag becomes another one, at its place. -/
def replaceFirst (tag : Text) (inbound : Json) : List Json → List Json
  | [] => []
  | i :: rest => if hasTag tag i then inbound :: rest else i :: replaceFirst tag inbound rest

/-- The config after the inbound that `_target_inbound` returned has been changed in place. -/
def replaceInbound (tag : Text) (inbound config : Json) : Json :=
  config.set "inbounds".toList (.arr (replaceFirst tag inbound (config.field "inbounds".toList).items))

/-- `_clients`; what it puts in place of missing clients is written with the next `setClients`. -/
def clientsOf (inbound : Json) : Option (List Json) :=
  match (inbound.field "settings".toList).field? "clients".toList with
  | none => some []
  | some clients => clients.asArr

/-- `inbound["settings"]["clients"] = clients`. -/
def setClients (inbound : Json) (clients : List Json) : Json :=
  inbound.set "settings".toList
    ((inbound.field "settings".toList).set "clients".toList (.arr clients))

/-- `_reality_settings`. -/
def realitySettings (inbound : Json) : Option Json :=
  let reality := (inbound.field "streamSettings".toList).field "realitySettings".toList
  if reality.isObj then some reality else none

/-- `realitySettings["shortIds"] = short_ids`. -/
def setShortIds (inbound : Json) (shortIds : List Json) : Json :=
  let stream := inbound.field "streamSettings".toList
  inbound.set "streamSettings".toList (stream.set "realitySettings".toList
    ((stream.field "realitySettings".toList).set "shortIds".toList (.arr shortIds)))

/-- `reality.setdefault("shortIds", [])`. -/
def shortIdsOf (reality : Json) : Option (List Json) :=
  match reality.field? "shortIds".toList with
  | none => some []
  | some shortIds => shortIds.asArr

/-- `_add_short_id`, and whether it was missing. -/
def addShortId (inbound : Json) (shortId : Text) : Option (Json × Bool) := do
  let reality ← realitySettings inbound
  let shortIds ← shortIdsOf reality
  if shortIds.any (·.isStr shortId) then return (inbound, false)
  return (setShortIds inbound (shortIds ++ [.str shortId]), true)

/-- `_remove_short_id`, and whether it was there. -/
def removeShortId (inbound : Json) (shortId : Text) : Option (Json × Bool) := do
  let reality ← realitySettings inbound
  match (reality.field "shortIds".toList).asArr with
  | none => return (inbound, false)
  | some shortIds =>
    if !shortIds.any (·.isStr shortId) then return (inbound, false)
    return (setShortIds inbound (shortIds.filter fun v => !v.isStr shortId), true)

/-- The test of `_find_client_in_list`. -/
def isClient (uuid email : Text) (client : Json) : Bool :=
  client.isObj && ((!uuid.isEmpty && (client.field "id".toList).isStr uuid) ||
    (!email.isEmpty && (client.field "email".toList).isStr email))

/-- `_matches_client_for_remove`. -/
def matchesClientForRemove (uuid email : Option Text) (client : Json) : Bool :=
  client.isObj &&
    match uuid.filter fun u => !u.isEmpty with
    | some u => (client.field "id".toList).isStr u
    | none => (email.filter fun e => !e.isEmpty).any fun e => (client.field "email".toList).isStr e

/-- The client that `rename_clients` leaves, and whether its email changed. -/
def renameClient (renames : List (Text × Text)) (client : Json) : Json × Bool :=
  match client, client.field "id".toList with
  | .obj _, .str uuid =>
    match (renames.lookup uuid).filter fun desired => !desired.isEmpty with
    | some desired =>
      if (client.field "email".toList).isStr desired then (client, false)
      else (client.set "email".toList (.str desired), true)
    | none => (client, false)
  | _, _ => (client, false)

/-! ### Operations -/

/-- A character that `_EMAIL_SAFE_RE` allows at the beginning. -/
def isEmailStart (c : Char) : Bool :=
  ('a' ≤ c && c ≤ 'z') || ('A' ≤ c && c ≤ 'Z') || ('0' ≤ c && c ≤ '9') || "@._+".toList.contains c

/-- `_EMAIL_SAFE_RE` matches; `$` also matches before a line feed at the end. -/
def emailSafe (label : Text) : Bool :=
  match if label.getLast? = some '\n' then label.dropLast else label with
  | [] => false
  | c :: rest => isEmailStart c && rest.all fun d => isEmailStart d || d = '-'

/-- The public methods that change the config. -/
inductive Op
  | addClient (uuid email shortId flow : Text) (manageShortId : Bool)
  | removeClient (uuid email shortId : Option Text) (dropShortId : Bool)
  | renameClients (renames : List (Text × Text)) (preferRestart : Bool)
  | ensureShortId (shortId : Text)

/-- The way of a new file into the running Xray. -/
inductive Path
  | api
  | reload
  | restart
  deriving DecidableEq

/-- The inbound after an edit, and the path that the edit takes. -/
abbrev Edit := Json × Path

/-- The edit of `add_client`. -/
def addClient (uuid email shortId flow : Text) (manageShortId : Bool) (inbound : Json) : Option Edit := do
  let clients ← clientsOf inbound
  if clients.any (isClient uuid email) then none
  let base := [("id".toList, Json.str uuid), ("email".toList, .str email)]
  let client := Json.obj (if flow.isEmpty then base else base ++ [("flow".toList, .str flow)])
  let added := setClients inbound (clients ++ [client])
  if !manageShortId then return (added, .api)
  let (edited, inserted) ← addShortId added shortId
  return (edited, if inserted then .reload else .api)

/-- The edit of `remove_client`, if there is one to write. -/
def removeClient (uuid email shortId : Option Text) (dropShortId : Bool) (inbound : Json) :
    Option (Option Edit) := do
  let clients ← clientsOf inbound
  let kept := clients.filter fun client => !matchesClientForRemove uuid email client
  let changed := kept.length ≠ clients.length
  let removed := setClients inbound kept
  match shortId.filter fun s => dropShortId && !s.isEmpty with
  | none => return if changed then some (removed, .api) else none
  | some s =>
    let (edited, dropped) ← removeShortId removed s
    return if dropped then some (edited, .reload) else if changed then some (edited, .api) else none

/-- The edit of `rename_clients`, if there is one to write. -/
def renameClients (renames : List (Text × Text)) (preferRestart : Bool) (inbound : Json) :
    Option (Option Edit) := do
  let clients ← clientsOf inbound
  let renamed := clients.map (renameClient renames)
  return if renamed.any Prod.snd then
    some (setClients inbound (renamed.map Prod.fst), if preferRestart then .restart else .reload)
  else none

/-- The edit of `ensure_short_id`, if there is one to write. -/
def ensureShortId (shortId : Text) (inbound : Json) : Option (Option Edit) := do
  let (edited, inserted) ← addShortId inbound shortId
  return if inserted then some (edited, .reload) else none

/-- The method returns before it reads the config. -/
def Adapter.returnsAtOnce (adapter : Adapter) : Op → Bool
  | .renameClients renames _ => renames.isEmpty
  | .ensureShortId shortId => shortId.isEmpty || !adapter.requireReality
  | .addClient .. | .removeClient .. => false

/-- The labels that the method is given are safe. -/
def Op.labelsSafe : Op → Bool
  | .addClient _ email _ _ _ => emailSafe email
  | .renameClients renames _ => renames.all fun p => emailSafe p.2
  | .removeClient .. | .ensureShortId _ => true

def Op.edit (inbound : Json) : Op → Option (Option Edit)
  | .addClient uuid email shortId flow manageShortId =>
    (XrayConfig.addClient uuid email shortId flow manageShortId inbound).map some
  | .removeClient uuid email shortId dropShortId =>
    XrayConfig.removeClient uuid email shortId dropShortId inbound
  | .renameClients renames preferRestart => XrayConfig.renameClients renames preferRestart inbound
  | .ensureShortId shortId => XrayConfig.ensureShortId shortId inbound

/-! ### The file and the running Xray -/

/-- The config file, and the config that Xray runs. -/
structure State where
  file : Json
  running : Json

/-- What is outside of the adapter: `xray -test`, and what Xray runs after a reload, which depends on what
it ran before and on the file. -/
structure Host where
  testConfig : Json → Bool
  reload : Json → Json → Json

/-- `rmi` and `adi` of one inbound: it takes the place of the one with the tag, or is added. -/
def adi (tag : Text) (inbound running : Json) : Json :=
  if (running.field "inbounds".toList).items.any (hasTag tag) then replaceInbound tag inbound running
  else running.set "inbounds".toList (.arr ((running.field "inbounds".toList).items ++ [inbound]))

/-- `_install_candidate` and `_install_candidate_api`; the inbound that the API gets is read from the
new file. -/
def install (host : Host) (adapter : Adapter) (path : Path) (candidate : Json) (s : State) :
    Option State :=
  if !host.testConfig candidate then none
  else
    match path with
    | .restart => some ⟨candidate, candidate⟩
    | .reload => some ⟨candidate, host.reload s.running candidate⟩
    | .api => (adapter.targetInbound candidate).map fun inbound =>
        ⟨candidate, adi adapter.inboundTag inbound s.running⟩

/-- A call of a method of an adapter, and what the provider returns to it. -/
structure Call where
  adapter : Adapter
  op : Op
  provider : SendThrough

/-- The config that the call writes before the outbounds are bound, and its path. -/
def Call.plan (call : Call) (config : Json) : Option (Option (Json × Path)) := do
  let inbound ← call.adapter.targetInbound config
  let edit ← call.op.edit inbound
  return edit.map fun (edited, path) => (replaceInbound call.adapter.inboundTag edited config, path)

/-- A call that returns. -/
def step (host : Host) (s : State) (call : Call) : Option State :=
  if call.adapter.returnsAtOnce call.op then some s
  else if !call.op.labelsSafe || !host.testConfig s.file || !s.file.isObj then none
  else
    match call.plan s.file with
    | none => none
    | some none => some s
    | some (some (config, path)) =>
      install host call.adapter path (writeTempConfig call.provider config) s

end VpnBot.XrayConfig
