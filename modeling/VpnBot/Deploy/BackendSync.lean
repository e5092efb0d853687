import Mathlib
import VpnBot.Python.Dict
import VpnBot.Python.Json
import VpnBot.Python.Basic

/-!
# Installing the Xray skeleton

`src/deploy/backend-config-sync.py`, the subcommand `install-xray`: the structure of the repository's
skeleton is merged with the bot-owned region of the live config, which is the client lists, the
REALITY short ids and the `sendThrough` of the freedom outbounds.

* `resolvePlaceholders`: a placeholder takes its value from the environment or from the live config;
* `planSkeleton`: the skeleton with its placeholders resolved, inbounds by tag;
* `putBack`: clients and short ids go back by tag, `sendThrough` by the position among the freedom
  outbounds;
* `installXray`: the checks around these, and what is written.

`Refusal.crash` is an exception that ends the script, `Refusal.die` its own refusal; nothing is
written in either case.  A resolved value may be the object of the live config itself; what is
assigned to it later is what it already holds, so sharing changes no value.
-/

namespace VpnBot.Deploy

open Py

/-! ### The data -/

/-- Why nothing is written. -/
inductive Refusal
  | crash
  | die (message : Text)

/-- What the script finds around the two configs. -/
structure Host where
  /-- The variables of the `.env` file. -/
  env : Dict Text Text
  dryRun : Bool
  /-- The verdict of `xray run -test`, when there is an `xray` binary. -/
  xrayTest : Option (Json → Bool)
  /-- `str` of a list or of a dictionary. -/
  containerText : Json → Text

/-- The bot-owned region of a config. -/
structure BotState where
  clients : Dict Text (List Json)
  shortIds : Dict Text (List Json)
  sendThrough : List Json

def FREEDOM_OUTBOUND_PROTOCOL : Text := "freedom".toList

/-- Where a placeholder's real value comes from. -/
def PLACEHOLDER_ENV : List (Text × Text) :=
  [("<REALITY_SERVER_NAME>".toList, "XRAY_SNI".toList), ("<XHTTP_PATH>".toList, "XRAY_XHTTP_PATH".toList)]

/-! ### Python values -/

/-- `str(v)`. -/
def str (host : Host) : Json → Text
  | .null => "None".toList
  | .bool true => "True".toList
  | .bool false => "False".toList
  | .num r => r
  | .str t => t
  | v => host.containerText v

/-- The values that `for x in (v or [])` meets. -/
def iterOrEmpty (v : Json) : Except Refusal (List Json) :=
  if !v.truthy then .ok []
  else
    match v with
    | .arr l => .ok l
    | .str t => .ok (t.map fun c => .str [c])
    | .obj fs => .ok (fs.map fun p => .str p.1)
    | _ => .error .crash

/-- `v.get(k)`; every other value than a dictionary has no `get`. -/
def getField (v : Json) (k : Text) : Except Refusal Json :=
  if v.isObj then .ok (v.field k) else .error .crash

/-- `str(entry.get("tag") or "")`. -/
def tagOf (host : Host) (entry : Json) : Text :=
  if (entry.field "tag".toList).truthy then str host (entry.field "tag".toList) else []

/-! ### The bot-owned region -/

/-- `key_inbounds_by_tag`, from the inbound at the given index on: the last one of a tag stays. -/
def keyInboundsFrom (host : Host) : ℕ → List Json → Dict Text Json → Dict Text Json
  | _, [], out => out
  | index, inbound :: rest, out =>
    if inbound.isObj then
      let tag := if (inbound.field "tag".toList).truthy then tagOf host inbound
        else "<untagged #".toList ++ natText index ++ ">".toList
      keyInboundsFrom host (index + 1) rest (out.set tag inbound)
    else keyInboundsFrom host (index + 1) rest out

/-- `key_inbounds_by_tag`. -/
def keyInboundsByTag (host : Host) (cfg : Json) : Except Refusal (Dict Text Json) := do
  let inbounds ← iterOrEmpty (← getField cfg "inbounds".toList)
  return keyInboundsFrom host 0 inbounds Dict.empty

/-- The client list of an inbound, where there is one. -/
def clientsOf (inbound : Json) : Option (List Json) :=
  ((inbound.field "settings".toList).field "clients".toList).asArr

/-- The `realitySettings` of an inbound. -/
def realityOf (inbound : Json) : Json :=
  (inbound.field "streamSettings".toList).field "realitySettings".toList

/-- The REALITY short ids of an inbound, where there is such a list. -/
def shortIdsOf (inbound : Json) : Option (List Json) := ((realityOf inbound).field "shortIds".toList).asArr

/-- `(inbound.get("streamSettings") or {})` must be a dictionary. -/
def checkStreamSettings (inbound : Json) : Except Refusal Unit :=
  let stream := inbound.field "streamSettings".toList
  if !stream.truthy || stream.isObj then .ok () else .error .crash

/-- `outbound.get("protocol") == "freedom"`. -/
def isFreedom (outbound : Json) : Bool :=
  match outbound.field "protocol".toList with
  | .str t => t = FREEDOM_OUTBOUND_PROTOCOL
  | _ => false

/-- One round of the loop of `extract_bot_state`. -/
def extractInbound (state : BotState) (entry : Text × Json) : Except Refusal BotState := do
  checkStreamSettings entry.2
  return { state with
    clients := state.clients.setIfSome entry.1 (clientsOf entry.2)
    shortIds := state.shortIds.setIfSome entry.1 (shortIdsOf entry.2) }

/-- `extract_bot_state`. -/
def extractBotState (host : Host) (live : Json) : Except Refusal BotState := do
  let inbounds ← keyInboundsByTag host live
  let state ← inbounds.items.foldlM extractInbound ⟨Dict.empty, Dict.empty, []⟩
  let outbounds ← iterOrEmpty (← getField live "outbounds".toList)
  let sendThrough := (outbounds.filter isFreedom).map (·.field "sendThrough".toList)
  return { state with sendThrough }

/-! ### Placeholders -/

/-- A character that may stand in a placeholder. -/
def isPlaceholderChar (c : Char) : Bool := c.isAlphanum || c = '_' || c = '-'

/-- A text of the form `<…>`. -/
def isBracketed (t : Text) : Bool :=
  match t with
  | '<' :: r => r.getLast? = some '>' && !r.dropLast.isEmpty && r.dropLast.all isPlaceholderChar
  | _ => false

/-- `PLACEHOLDER_RE.match(t)`; the end of the pattern also matches before a last line feed. -/
def isPlaceholder (t : Text) : Bool :=
  isBracketed t || (t.getLast? = some '\n' && isBracketed t.dropLast)

/-- The variable of `.env` that a placeholder stands for, with its value when that is not empty. -/
def envValue (host : Host) (t : Text) : Option Text :=
  ((PLACEHOLDER_ENV.find? fun p => p.1 = t).bind fun p => host.env.get? p.2).filter (!·.isEmpty)

/-- The line about a placeholder without a value. -/
def unresolvedLine (t path : Text) : Text :=
  let envKey := ((PLACEHOLDER_ENV.find? fun p => p.1 = t).map Prod.snd).getD "—".toList
  t ++ " at ".toList ++ path ++ " (env ".toList ++ envKey ++ ", no live value to preserve)".toList

/-- A live value that is there and is no placeholder itself. -/
def isLiveValue : Json → Bool
  | .null => false
  | .str t => !isPlaceholder t
  | _ => true

/-- The fields of a dictionary, none for another value. -/
def fieldsOrEmpty : Json → Json
  | .obj fs => .obj fs
  | _ => .obj []

mutual

/-- `resolve_placeholders`: the resolved value and the lines about unresolved placeholders. -/
def resolvePlaceholders (host : Host) : Json → Json → Text → Json × List Text
  | .str t, live, path =>
    if isPlaceholder t then
      match envValue host t with
      | some v => (.str v, [])
      | none => if isLiveValue live then (live, []) else (.str t, [unresolvedLine t path])
    else (.str t, [])
  | .obj fs, live, path =>
    let r := resolveFields host fs live path
    (.obj r.1, r.2)
  | .arr l, live, path =>
    let r := resolveItems host l live.items path 0
    (.arr r.1, r.2)
  | node, _, _ => (node, [])

/-- The fields of a dictionary, each against the live value of its key. -/
def resolveFields (host : Host) : List (Text × Json) → Json → Text → List (Text × Json) × List Text
  | [], _, _ => ([], [])
  | (k, v) :: fs, live, path =>
    let r := resolvePlaceholders host v (live.field k) (path ++ ".".toList ++ k)
    let rs := resolveFields host fs live path
    ((k, r.1) :: rs.1, r.2 ++ rs.2)

/-- The items of a list, each against the live item at its index. -/
def resolveItems (host : Host) : List Json → List Json → Text → ℕ → List Json × List Text
  | [], _, _, _ => ([], [])
  | v :: l, live, path, index =>
    let r := resolvePlaceholders host v (live[index]?.getD .null)
      (path ++ "[".toList ++ natText index ++ "]".toList)
    let rs := resolveItems host l live path (index + 1)
    (r.1 :: rs.1, r.2 ++ rs.2)

end

/-- `skeleton["inbounds"][index]`. -/
def skeletonInbound (skeleton : Json) (index : ℕ) : Except Refusal Json :=
  match skeleton.field? "inbounds".toList with
  | some (.arr l) => match l[index]? with
    | some v => .ok v
    | none => .error .crash
  | some (.str t) => match t[index]? with
    | some c => .ok (.str [c])
    | none => .error .crash
  | _ => .error .crash

/-- A merged inbound whose tag is live is resolved again, against the live inbound of its tag. -/
def resolveByTag (host : Host) (skeleton : Json) (liveByTag : Dict Text Json) (index : ℕ)
    (inbound : Json) : Except Refusal (Json × List Text) :=
  if !inbound.isObj then .error .crash
  else
    match liveByTag.get? (tagOf host inbound) with
    | none => .ok (inbound, [])
    | some live => do
      let node ← skeletonInbound skeleton index
      return resolvePlaceholders host node live
        ("$.inbounds[".toList ++ tagOf host inbound ++ "]".toList)

/-- The loop over the merged inbounds, from the given index on. -/
def resolveInbounds (host : Host) (skeleton : Json) (liveByTag : Dict Text Json) :
    ℕ → List Json → Except Refusal (List Json × List Text)
  | _, [] => .ok ([], [])
  | index, inbound :: rest => do
    let r ← resolveByTag host skeleton liveByTag index inbound
    let rs ← resolveInbounds host skeleton liveByTag (index + 1) rest
    return (r.1 :: rs.1, r.2 ++ rs.2)

/-- The loop `for entry in cfg.get(k, []) or []` that changes the entries of a list in place.  The
characters of a text and the keys of a dictionary have no `get`, so these are not walked over. -/
def entriesOf (cfg : Json) (k : Text) : Except Refusal (List Json) :=
  if (cfg.field k).truthy then
    match cfg.field k with
    | .arr l => .ok l
    | _ => .error .crash
  else .ok []

/-- The entries of a list are replaced; without entries nothing changes. -/
def setEntries (cfg : Json) (k : Text) (entries : List Json) : Json :=
  if entries.isEmpty then cfg else cfg.set k (.arr entries)

/-- The skeleton with its placeholders resolved, and the lines about those that are not. -/
def planSkeleton (host : Host) (skeleton live : Json) : Except Refusal (Json × List Text) := do
  let liveByTag ← keyInboundsByTag host live
  let merged := resolvePlaceholders host skeleton live "$".toList
  if !merged.1.isObj then .error .crash
  else do
    let inbounds ← entriesOf merged.1 "inbounds".toList
    let r ← resolveInbounds host skeleton liveByTag 0 inbounds
    return (setEntries merged.1 "inbounds".toList r.1, merged.2 ++ r.2)

/-! ### Putting the bot-owned region back -/

/-- `inbound.setdefault("settings", {})["clients"] = clients`. -/
def setClients (inbound : Json) (clients : List Json) : Except Refusal Json :=
  let settings := (inbound.field? "settings".toList).getD (.obj [])
  if settings.isObj then
    .ok (inbound.set "settings".toList (settings.set "clients".toList (.arr clients)))
  else .error .crash

/-- The short ids go into the `realitySettings`, where the inbound has such a dictionary. -/
def setShortIds (inbound : Json) (shortIds : List Json) : Except Refusal Json := do
  checkStreamSettings inbound
  let stream := inbound.field "streamSettings".toList
  let reality := realityOf inbound
  if reality.isObj then
    return inbound.set "streamSettings".toList (stream.set "realitySettings".toList
      (reality.set "shortIds".toList (.arr shortIds)))
  else return inbound

/-- The clients of the tag, where the live config has some. -/
def putBackClients (state : BotState) (tag : Text) (inbound : Json) : Except Refusal Json :=
  match state.clients.get? tag with
  | some clients => setClients inbound clients
  | none => .ok inbound

/-- The short ids of the tag, where the live config has some. -/
def putBackShortIds (state : BotState) (tag : Text) (inbound : Json) : Except Refusal Json :=
  match state.shortIds.get? tag with
  | some shortIds => setShortIds inbound shortIds
  | none => .ok inbound

def putBackInbound (host : Host) (state : BotState) (inbound : Json) : Except Refusal Json :=
  if !inbound.isObj then .error .crash
  else (putBackClients state (tagOf host inbound) inbound).bind
    (putBackShortIds state (tagOf host inbound))

/-- The value whose turn it is goes into a freedom outbound, unless it is empty. -/
def putBackOutbound (value : Option Json) (outbound : Json) : Json :=
  match value.filter Json.truthy with
  | some v => outbound.set "sendThrough".toList v
  | none => outbound

/-- What is put back into the outbounds: the freedom outbounds take the values in turn. -/
def putBackOutbounds : List Json → List Json → Except Refusal (List Json)
  | _, [] => .ok []
  | values, outbound :: rest =>
    if !outbound.isObj then .error .crash
    else if isFreedom outbound then do
      let rest ← putBackOutbounds values.tail rest
      return putBackOutbound values.head? outbound :: rest
    else do
      let rest ← putBackOutbounds values rest
      return outbound :: rest

/-- The planned config with the bot-owned region. -/
def putBack (host : Host) (state : BotState) (planned : Json) : Except Refusal Json := do
  let inbounds ← entriesOf planned "inbounds".toList
  let inbounds ← inbounds.mapM (putBackInbound host state)
  let merged := setEntries planned "inbounds".toList inbounds
  let outbounds ← entriesOf merged "outbounds".toList
  let outbounds ← putBackOutbounds state.sendThrough outbounds
  return setEntries merged "outbounds".toList outbounds

/-! ### The installation -/

/-- `len(ib.get("settings", {}).get("clients", []))`. -/
def clientCount (inbound : Json) : Except Refusal ℕ :=
  let settings := (inbound.field? "settings".toList).getD (.obj [])
  if !settings.isObj then .error .crash
  else
    match (settings.field? "clients".toList).getD (.arr []) with
    | .arr l => .ok l.length
    | .str t => .ok t.length
    | .obj fs => .ok fs.length
    | _ => .error .crash

def mergedClients (merged : Json) : Except Refusal ℕ := do
  let inbounds ← match (merged.field? "inbounds".toList).getD (.arr []) with
    | .arr l => .ok l
    | .str _ => .ok []
    | .obj _ => .ok []
    | _ => .error .crash
  let counts ← (inbounds.filter Json.isObj).mapM clientCount
  return counts.sum

/-- `die(message)` under a condition. -/
def dieIf (condition : Bool) (message : Text) : Except Refusal Unit :=
  if condition then .error (.die message) else .ok ()

/-- The merged config, with the checks that come before it is written. -/
def mergeXray (host : Host) (skeleton live : Json) : Except Refusal Json := do
  let state ← extractBotState host live
  let totalClients := (state.clients.values.map List.length).sum
  dieIf state.clients.items.isEmpty
    ("the live config has no `settings.clients` list on any inbound. That is not a config this " ++
      "script should rewrite — refusing before touching anything.").toList
  let plan ← planSkeleton host skeleton live
  dieIf (!plan.2.isEmpty) ("unresolved placeholder(s) — nothing written:\n       ".toList ++
    List.intercalate "\n       ".toList (plan.2.mergeSort (fun a b => a ≤ b)).dedup)
  let merged ← putBack host state plan.1
  let mergedTotal ← mergedClients merged
  dieIf (mergedTotal ≠ totalClients) ("refusing to write: ".toList ++ natText totalClients ++
    " client(s) read from the live config but ".toList ++ natText mergedTotal ++
    (" in the merged result. An inbound tag in the skeleton does not match the host — " ++
      "reconcile the tags first.").toList)
  return merged

/-- `install_xray`: the config that replaces the live one, `none` for a dry run. -/
def installXray (host : Host) (skeleton live : Json) : Except Refusal (Option Json) := do
  let merged ← mergeXray host skeleton live
  if host.dryRun then return none
  else
    match host.xrayTest with
    | none =>
      throw (.die ("the `xray` binary was not found, so the merged config cannot be validated. " ++
        "Refusing to install an unvalidated config over a live one.").toList)
    | some accepts =>
      dieIf (!accepts merged) "xray rejected the merged config — nothing written:\n".toList
      return some merged

end VpnBot.Deploy
