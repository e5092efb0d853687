import VpnBot.Awg.Config
import VpnBot.System.Calls
import VpnBot.Warp.FeedFetch

/-!
# Adding and removing a peer in direct mode

`add_peer` and `remove_peer` of `src/adapters/awg_config.py` without the privileged helper, from the check of the
arguments to the rollback.  The config is a file and the runtime a set of public keys; `Answers` says of
every call whether it raises and of every command how it ends and whether it has taken effect, so that a
statement for all answers is one for every pattern of failures.

* `removeManagedBlock`, `removePeerSectionByIdentity`, `peerBlock`, `findPeer`: the texts;
* `addBody`, `removeBody`: what stands in the `try`, with the two flags as local variables;
* `rollbackAddPeer`, `rollbackRemovePeer`, `addPeer`, `removePeer`.

What `ipaddress` says about the addresses is a parameter, and the lock, the parameters of the other options
and the log are left out.
-/

namespace VpnBot.Awg

open Py Sys Program

/-! ### The texts -/

/-- `t.rstrip()`. -/
def rstrip (t : Text) : Text := (t.reverse.dropWhile isSpace).reverse

/-- `_has_control_or_space`. -/
def hasControlOrSpace (t : Text) : Bool := t.any fun c => isSpace c || c.toNat < 0x20 || c.toNat = 0x7f

/-- `validate_wireguard_key`. -/
def validateWireguardKey (t : Text) : Bool := !t.isEmpty && !startsWith ['-'] t && !hasControlOrSpace t

/-- How the start marker of a key begins. -/
def startMarkerHead (keyId : ℕ) : Text := startPrefix ++ (natText keyId ++ [' '])

/-- `_managed_block_exists`. -/
def managedBlockExists (t : Text) (keyId : ℕ) : Bool :=
  (splitlines t).any (startsWith (startMarkerHead keyId))

/-- `_remove_managed_block`. -/
def removeManagedBlock (t : Text) (keyId : ℕ) : Except Text Text :=
  let lines := splitlines t
  let before := lines.takeWhile fun l => !startsWith (startMarkerHead keyId) (strip l)
  match lines.drop before.length with
  | [] => .ok t
  | _ :: rest =>
    match rest.dropWhile fun l => strip l ≠ endMarker keyId with
    | [] => .error ("Найден start-marker key_id=".toList ++ natText keyId ++ ", но не найден end-marker".toList)
    | _ :: after => .ok (rstrip (join '\n' (before ++ after)) ++ ['\n'])

def publicKeyOption : Text := "PublicKey".toList

/-- The loop of `_remove_peer_section_by_identity`, at most `k` rounds: the lines that stay, and whether a
section has gone. -/
def removeSectionsLoop (publicKey : Text) : ℕ → List Text → Except Text (List Text × Bool)
  | 0, _ => .ok ([], false)
  | _ + 1, [] => .ok ([], false)
  | k + 1, line :: lines => do
    if strip line ≠ "[Peer]".toList then
      let (kept, removed) ← removeSectionsLoop publicKey k lines
      return (line :: kept, removed)
    else
      let block := line :: lines.takeWhile fun l => !isHeader (strip l)
      let peer ← (parseBlock block).mapError AwgConfigError.message
      let (kept, removed) ← removeSectionsLoop publicKey k ((line :: lines).drop block.length)
      if peer.options.get? publicKeyOption = some publicKey then return (kept, true)
      else return (block ++ kept, removed)

/-- `_remove_peer_section_by_identity`. -/
def removePeerSectionByIdentity (t publicKey : Text) : Except Text Text := do
  let (kept, removed) ← removeSectionsLoop publicKey (splitlines t).length (splitlines t)
  if removed then return rstrip (join '\n' kept) ++ ['\n'] else return t

/-- What `ipaddress` says: a text is an address, and a network holds an address of its version. -/
structure Ipaddress where
  isAddress : Text → Bool
  inNetwork : Text → Text → Bool

/-- `_allowed_ips_contains`, for an address. -/
def allowedIpsContains (ip : Ipaddress) (allowedIps clientIp : Text) : Bool :=
  ip.isAddress clientIp && (splitAt ',' allowedIps).any fun part =>
    !(strip part).isEmpty && ip.inNetwork (strip part) clientIp

/-- `_find_peer`. -/
def findPeer (ip : Ipaddress) (sections : List AwgSection) (publicKey clientIp : Option Text) :
    Option Options :=
  (sections.find? fun sec => sec.name = "Peer".toList &&
    (publicKey.any (fun k => !k.isEmpty && sec.options.get? publicKeyOption = some k) ||
      clientIp.any fun address => !address.isEmpty &&
        allowedIpsContains ip ((sec.options.get? "AllowedIPs".toList).getD []) address)).map (·.options)

/-! ### The calls -/

/-- The config file and the public keys of the peers in the runtime. -/
@[ext] structure Server where
  config : Text
  peers : Text → Bool

def Server.withPeer (publicKey : Text) (s : Server) : Server :=
  { s with peers := Function.update s.peers publicKey true }

/-- The peer is out of the runtime. -/
def Server.without (publicKey : Text) (s : Server) : Server :=
  { s with peers := Function.update s.peers publicKey false }

inductive CommandEnd
  | ok
  | failed
  | raised
  deriving DecidableEq

/-- What comes of a command that changes the runtime; one that does not end well may have changed it. -/
structure Answer where
  ends : CommandEnd
  took : Bool

/-- What comes of `show`: it prints the peers, and the line that is looked for is cut off or not. -/
inductive Shown
  | printed (cut : Bool)
  | failed
  | raised
  deriving DecidableEq

/-- The calls that change neither the file nor the runtime. -/
inductive Site
  | lock | snapshot | createBackup | read | unchanged | strip | unchangedAgain | readBack
  deriving DecidableEq

/-- The runs of `show`. -/
inductive ShowSite
  | active | before | after
  deriving DecidableEq

/-- The words by which an error says that the rollback has failed. -/
def rollbackWords : Text := "rollback failed steps".toList

/-- What the calls and the commands answer; `synced` are the peers of the runtime after `syncconf` with the
strip of a config, and `text` the text of the exceptions that the calls raise. -/
structure Answers where
  raises : Site → Bool
  shown : ShowSite → Shown
  set : Answer
  remove : Answer
  synced : Text → Text → Bool
  sync : Option CallFault
  write : Option CallFault
  restore : Option CallFault
  text : Text
  quiet : ¬rollbackWords <:+: text

/-- A call that may raise. -/
def guardSite (a : Answers) (site : Site) : Program Server Text Unit :=
  if a.raises site then throw a.text else pure ()

/-- What raises the message of an exception when it fails. -/
def ofResult {α : Type} (r : Except Text α) : Program Server Text α := ofExcept fun _ => r

/-- `_read_text`. -/
def readText (a : Answers) (site : Site) : Program Server Text Text := do
  guardSite a site
  let s ← get
  return Warp.universalNewlines s.config

/-- `ensure_interface_active`. -/
def ensureInterfaceActive (a : Answers) (interface : Text) : Program Server Text Unit :=
  match a.shown .active with
  | .printed _ => pure ()
  | .failed => throw ("AWG interface ".toList ++ interface ++ " недоступен или не активен".toList)
  | .raised => throw a.text

/-- `verify_runtime_peer`. -/
def checkRuntimePeer (a : Answers) (site : ShowSite) (publicKey : Text) : Program Server Text Bool :=
  match a.shown site with
  | .printed cut => do
    let s ← get
    return !cut && s.peers publicKey
  | .failed => return false
  | .raised => throw a.text

/-- A command that changes the runtime; it tells whether it has ended well. -/
def change (answer : Answer) (text : Text) (effect : Server → Server) : Program Server Text Bool := do
  modify fun s => if answer.ends = .ok ∨ answer.took = true then effect s else s
  if answer.ends = .raised then throw text
  return answer.ends = .ok

/-- `_add_peer_runtime`, with the file for the preshared key. -/
def addPeerRuntime (a : Answers) (publicKey : Text) : Program Server Text Bool :=
  change a.set a.text (Server.withPeer publicKey)

/-- `_remove_peer_runtime`. -/
def removePeerRuntime (a : Answers) (publicKey : Text) : Program Server Text Bool :=
  change a.remove a.text (Server.without publicKey)

/-- `_sync_runtime_from_config`. -/
def syncRuntime (a : Answers) : Program Server Text Unit :=
  call a.sync a.text fun s => { s with peers := a.synced s.config }

/-- `atomic_write_text`. -/
def writeConfig (a : Answers) (t : Text) : Program Server Text Unit :=
  call a.write a.text fun s => { s with config := t }

/-- `restore`; a backup that is not there any more is a failure of it. -/
def restoreConfig (a : Answers) (backup : Text) : Program Server Text Unit :=
  call a.restore a.text fun s => { s with config := backup }

/-- `_validate_candidate_config`. -/
def validateCandidateConfig (a : Answers) (t : Text) : Program Server Text Unit := do
  let _ ← ofResult ((parseSections t).mapError AwgConfigError.message)
  guardSite a .strip

/-! ### The bodies -/

/-- The local variables of a method: `wrote_config`, and `touched_runtime` or `runtime_removed`. -/
structure Flags where
  wroteConfig : Bool
  runtime : Bool

/-- The server and the local variables. -/
abbrev Frame := Server × Flags

/-- A step that leaves the local variables alone. -/
def onServer {α : Type} (p : Program Server Text α) : Program Frame Text α :=
  zoom Prod.fst (fun s t => (s, t.2)) id p

def setWroteConfig : Program Frame Text Unit := modify fun t => (t.1, { t.2 with wroteConfig := true })

def setRuntime (value : Bool) : Program Frame Text Unit :=
  modify fun t => (t.1, { t.2 with runtime := value })

/-- A call of `add_peer`. -/
structure AddCall where
  ip : Ipaddress
  interface : Text
  keyId : ℕ
  ownerUserId : ℕ
  publicKey : Text
  presharedKey : Option Text
  clientIp : Text
  label : Option Text

/-- `_peer_block`; an empty label is none. -/
def AddCall.peerBlock (c : AddCall) : Except Text Text :=
  let label := c.label.filter fun l => !l.isEmpty
  if label.any hasControlOrSpace then .error "AWG peer label содержит недопустимые символы".toList
  else
    .ok (join '\n' ([startMarker c.keyId c.ownerUserId label, "[Peer]".toList,
        "PublicKey = ".toList ++ c.publicKey] ++
      c.presharedKey.toList.map ("PresharedKey = ".toList ++ ·) ++
      ["AllowedIPs = ".toList ++ c.clientIp ++ "/32".toList, endMarker c.keyId, []]))

/-- The peer goes into the runtime. -/
def addToRuntime (c : AddCall) (a : Answers) (message : Text) : Program Frame Text Unit := do
  setRuntime true
  if !(← onServer (addPeerRuntime a c.publicKey)) then throw message

/-- The block of the key is in the config already. -/
def addPresent (c : AddCall) (a : Answers) : Program Frame Text Unit := do
  if !(← onServer (checkRuntimePeer a .before c.publicKey)) then
    addToRuntime c a "AWG peer есть в config, но не применён в runtime".toList

/-- The config with the new block. -/
def AddCall.appended (c : AddCall) (original : Text) : Except Text Text := do
  let block ← c.peerBlock
  return rstrip original ++ "\n\n".toList ++ block

/-- The new block goes into the config and the peer into the runtime. -/
def addAppended (c : AddCall) (a : Answers) (original : Text) : Program Frame Text Unit := do
  let updated ← onServer (ofResult (c.appended original))
  onServer (validateCandidateConfig a updated)
  onServer (guardSite a .unchangedAgain)
  onServer (writeConfig a updated)
  setWroteConfig
  addToRuntime c a "Не удалось применить AWG peer в runtime".toList
  if !(← onServer (checkRuntimePeer a .after c.publicKey)) then
    throw "AWG peer добавлен командой, но не найден в runtime".toList

/-- The `try` of `add_peer`. -/
def addBody (c : AddCall) (a : Answers) : Program Frame Text Unit := do
  let original ← onServer (readText a .read)
  onServer (guardSite a .unchanged)
  let sections ← onServer (ofResult ((parseSections original).mapError AwgConfigError.message))
  if managedBlockExists original c.keyId then addPresent c a
  else if (findPeer c.ip sections (some c.publicKey) (some c.clientIp)).isSome then
    throw "AWG peer с таким public key или client_ip уже есть в конфиге".toList
  else addAppended c a original

/-- A call of `remove_peer`. -/
structure RemoveCall where
  ip : Ipaddress
  interface : Text
  keyId : ℕ
  publicKey : Option Text

/-- The config without the peer. -/
def RemoveCall.updated (c : RemoveCall) (original : Text) : Except Text Text := do
  let updated ← removeManagedBlock original c.keyId
  match c.publicKey with
  | some publicKey =>
    if updated = original then removePeerSectionByIdentity original publicKey else return updated
  | none => return updated

/-- What must be true, or else the message is raised. -/
def insist (p : Program Server Text Bool) (message : Text) : Program Frame Text Unit := do
  if !(← onServer p) then throw message

/-- The config does not have the peer any more. -/
def checkConfig (c : RemoveCall) (a : Answers) (publicKey message : Text) : Program Frame Text Unit := do
  let text ← onServer (readText a .readBack)
  let sections ← onServer (ofResult ((parseSections text).mapError AwgConfigError.message))
  if (findPeer c.ip sections (some publicKey) none).isSome then throw message

/-- The part of `remove_peer` on the runtime. -/
def removeFromRuntime (c : RemoveCall) (a : Answers) (publicKey : Text) : Program Frame Text Unit := do
  insist (removePeerRuntime a publicKey) "Не удалось удалить AWG peer из runtime".toList
  setRuntime true
  insist (not <$> checkRuntimePeer a .after publicKey)
    "AWG peer удалён командой, но всё ещё найден в runtime".toList
  checkConfig c a publicKey "AWG peer удалён из runtime, но всё ещё найден в config".toList

/-- The peer goes out of the runtime when there is a key. -/
def removeIfKeyed (c : RemoveCall) (a : Answers) : Program Frame Text Unit :=
  match c.publicKey with
  | some publicKey => removeFromRuntime c a publicKey
  | none => return

/-- The new config is written, if there is a new one. -/
def writeUpdated (a : Answers) (original updated : Text) : Program Frame Text Unit :=
  if updated = original then return
  else do
    onServer (validateCandidateConfig a updated)
    onServer (guardSite a .unchangedAgain)
    onServer (writeConfig a updated)
    setWroteConfig

/-- The `try` of `remove_peer`. -/
def removeBody (c : RemoveCall) (a : Answers) : Program Frame Text Unit := do
  let original ← onServer (readText a .read)
  onServer (guardSite a .unchanged)
  let updated ← onServer (ofResult (c.updated original))
  writeUpdated a original updated
  removeIfKeyed c a

/-! ### The rollback -/

/-- An error of a method, with the steps of the rollback that have failed. -/
structure Failure where
  context : Text
  primary : Text
  steps : List Text

def Failure.text (f : Failure) : Text :=
  if f.steps = [] then f.primary
  else f.context ++ ": ".toList ++ f.primary ++ "; ".toList ++ rollbackWords ++ ": ".toList ++
    List.intercalate ", ".toList f.steps

/-- The error does not say that the rollback has failed. -/
def Failure.Silent (f : Failure) : Prop := ¬rollbackWords <:+: f.text

/-- A step of the rollback, if it is needed; it has failed when it raises. -/
def rollbackStep (needed : Bool) (p : Program Server Text Unit) : Program Server Text Bool :=
  if needed then attempt p else pure true

/-- `_rollback_add_peer`. -/
def rollbackAddPeer (a : Answers) (publicKey backup : Text) (flags : Flags) :
    Program Server Text (List Text) := do
  let restored ← rollbackStep flags.wroteConfig (restoreConfig a backup)
  let cleaned ← rollbackStep flags.runtime (do let _ ← removePeerRuntime a publicKey)
  return (if restored then [] else ["restore config".toList]) ++
    if cleaned then [] else ["runtime cleanup".toList]

/-- `_rollback_remove_peer`. -/
def rollbackRemovePeer (a : Answers) (backup : Text) (flags : Flags) :
    Program Server Text (List Text) := do
  let restored ← rollbackStep flags.wroteConfig (restoreConfig a backup)
  let synced ← rollbackStep flags.runtime (syncRuntime a)
  return (if restored then [] else ["restore config".toList]) ++
    if synced then [] else ["runtime sync".toList]

/-- `try: … except Exception: …`; the handler sees the local variables as the exception has left them. -/
def tryBody (body : Program Frame Text Unit) (handler : Text → Flags → Program Server Failure Unit) :
    Program Server Failure Unit := fun s =>
  match body (s, ⟨false, false⟩) with
  | .ok _ t => .ok () t.1
  | .error e t => handler e t.2 t.1

/-- A step outside the `try`. -/
def outsideTry {α : Type} (p : Program Server Text α) : Program Server Failure α :=
  zoom id (fun s _ => s) (fun e => ⟨[], e, []⟩) p

/-- What both methods do before the `try`; it gives the text in the backup. -/
def openConfig (a : Answers) (interface : Text) : Program Server Failure Text := do
  outsideTry (guardSite a .lock)
  outsideTry (ensureInterfaceActive a interface)
  outsideTry (guardSite a .snapshot)
  outsideTry (guardSite a .createBackup)
  let s ← get
  return s.config

/-- The check of a key, with the name that the error gives it. -/
def checkKey (field : Text) (key : Option Text) : Except Text Unit :=
  if key.all validateWireguardKey then .ok () else .error (field ++ " содержит недопустимые символы".toList)

/-- The checks of the arguments of `add_peer`; the error for the address is without the value. -/
def AddCall.check (c : AddCall) : Except Text Unit := do
  checkKey "AWG public_key".toList (some c.publicKey)
  checkKey "AWG preshared_key".toList c.presharedKey
  if !c.ip.isAddress c.clientIp then throw "AWG client_ip не является корректным IP-адресом".toList

/-- The `except` of `add_peer`, with `_raise_with_rollback_summary`. -/
def addExcept (c : AddCall) (a : Answers) (backup primary : Text) (flags : Flags) :
    Program Server Failure Unit := do
  let steps ← outsideTry (rollbackAddPeer a c.publicKey backup flags)
  throw ⟨"AWG peer add failed".toList, primary, steps⟩

/-- The `except` of `remove_peer`. -/
def removeExcept (a : Answers) (backup primary : Text) (flags : Flags) : Program Server Failure Unit := do
  let steps ← outsideTry (rollbackRemovePeer a backup flags)
  throw ⟨"AWG peer remove failed".toList, primary, steps⟩

/-- `add_peer`. -/
def addPeer (c : AddCall) (a : Answers) : Program Server Failure Unit := do
  outsideTry (ofResult c.check)
  let backup ← openConfig a c.interface
  tryBody (addBody c a) (addExcept c a backup)

/-- `remove_peer`. -/
def removePeer (c : RemoveCall) (a : Answers) : Program Server Failure Unit := do
  outsideTry (ofResult (checkKey "AWG public_key".toList c.publicKey))
  let backup ← openConfig a c.interface
  tryBody (removeBody c a) (removeExcept a backup)

end VpnBot.Awg
