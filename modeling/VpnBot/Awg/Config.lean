import VpnBot.Python.Dict
import VpnBot.Python.Lines

/-!
# The AWG server config

`src/adapters/awg_config.py`: reading the sections of the config and the peers with the markers of
the managed blocks.  A config is text; `AwgConfigError` carries the message of the exception.

* `parseSections`: the sections with their options, or the error for an unknown section, a repeated
  critical option, an option before the first section, or a missing `[Interface]`;
* `managedStartMarker`: what a start marker says about its block;
* `parsePeerBlocks`: the scanner behind `list_config_peers`, with its nested loops.
-/

namespace VpnBot.Awg

open Py

/-! ### The data -/

/-- The exception of the config parser. -/
structure AwgConfigError where
  message : Text
  deriving DecidableEq

/-- The options of a section, or what is reported about a peer. -/
abbrev Options := Dict Text Text

/-- `_AwgSection`. -/
structure AwgSection where
  name : Text
  lines : List Text
  options : Options

def sectionNames : List Text := ["Interface".toList, "Peer".toList]

/-- The options that a `[Peer]` section must not repeat. -/
def CRITICAL_PEER_KEYS : List Text := ["PublicKey", "AllowedIPs", "PresharedKey"].map String.toList

/-- The options that an `[Interface]` section must not repeat. -/
def CRITICAL_INTERFACE_KEYS : List Text :=
  ["PrivateKey", "Address", "ListenPort", "Jc", "Jmin", "Jmax", "S1", "S2", "S3", "S4", "H1", "H2",
    "H3", "H4", "I1", "I2", "I3", "I4", "I5"].map String.toList

/-! ### Sections -/

/-- A stripped line that opens a section. -/
def isHeader (line : Text) : Bool := startsWith ['['] line && line.getLast? = some ']'

/-- A stripped line without content. -/
def isComment (line : Text) : Bool := startsWith ['#'] line

/-- The option of a stripped line: what stands before and after the first `=`. -/
def optionOf (line : Text) : Option (Text × Text) :=
  if line.isEmpty || isComment line then none
  else (splitOnce '=' line).map fun p => (strip p.1, strip p.2)

/-- `_reject_duplicate_critical_key`. -/
def rejectDuplicateCriticalKey (name : Text) (options : Options) (key : Text) :
    Except AwgConfigError Unit :=
  let critical := if name = "Interface".toList then CRITICAL_INTERFACE_KEYS else CRITICAL_PEER_KEYS
  if critical.contains key && options.contains key then
    .error ⟨"Дублирующий критичный параметр AWG config: [".toList ++ name ++ "] ".toList ++ key⟩
  else .ok ()

/-- The options of a section after one more line. -/
def addOption (name : Text) (options : Options) (raw : Text) : Except AwgConfigError Options :=
  match optionOf (strip raw) with
  | none => .ok options
  | some (key, value) => do
    rejectDuplicateCriticalKey name options key
    return options.set key value

/-- One line of `_parse_sections`; the section that is being read stands first. -/
def parseLine (sections : List AwgSection) (raw : Text) :
    Except AwgConfigError (List AwgSection) :=
  let line := strip raw
  if isHeader line then
    let name := strip line.tail.dropLast
    if sectionNames.contains name then .ok (⟨name, [raw], Dict.empty⟩ :: sections)
    else .error ⟨"Неизвестная секция AWG config: [".toList ++ name ++ "]".toList⟩
  else
    match sections with
    | [] =>
      if line.isEmpty || isComment line then .ok []
      else .error ⟨"AWG config содержит параметры до первой секции".toList⟩
    | current :: done => do
      let options ← addOption current.name current.options raw
      return ⟨current.name, current.lines ++ [raw], options⟩ :: done

/-- `_parse_sections`. -/
def parseSections (text : Text) : Except AwgConfigError (List AwgSection) := do
  let sections ← (splitlines text).foldlM parseLine []
  if sections.any (·.name = "Interface".toList) then return sections.reverse
  else throw ⟨"В AWG config не найден [Interface]".toList⟩

/-! ### Markers -/

/-- The text before the key id in a start marker. -/
def startPrefix : Text := "# vpn-bot peer start key_id=".toList

/-- The end of a start marker, for a block with a label. -/
def labelPart : Option Text → Text
  | none => []
  | some label => " label=".toList ++ label

/-- The first line of the block of a key, as `_peer_block` writes it. -/
def startMarker (keyId ownerUserId : ℕ) (label : Option Text) : Text :=
  startPrefix ++ (natText keyId ++ (" owner=".toList ++ (natText ownerUserId ++ labelPart label)))

/-- The last line of the block of a key. -/
def endMarker (keyId : ℕ) : Text := "# vpn-bot peer end key_id=".toList ++ natText keyId

/-- The names under which a marker is reported. -/
def managedKeyId : Text := "_managed_key_id".toList
@[inherit_doc managedKeyId] def managedLabel : Text := "_managed_label".toList

/-- A word of the start marker after the key id. -/
def addMarkerPart (marker : Options) (part : Text) : Options :=
  if startsWith "label=".toList part then
    let label := strip (part.drop "label=".length)
    if label.isEmpty then marker else marker.set managedLabel label
  else marker

/-- `_managed_start_marker`: the empty dictionary for every other line. -/
def managedStartMarker (line : Text) : Options :=
  if startsWith startPrefix line then
    match words (line.drop startPrefix.length) with
    | [] => Dict.empty
    | part :: parts =>
      match parseInt part with
      | none => Dict.empty
      | some keyId => parts.foldl addMarkerPart (Dict.singleton managedKeyId (intText keyId))
  else Dict.empty

/-! ### Peers -/

/-- The section of one peer: its lines are read again behind an `[Interface]` header. -/
def parseBlock (block : List Text) : Except AwgConfigError AwgSection := do
  let sections ← parseSections (join '\n' ("[Interface]".toList :: block))
  match sections.getLast? with
  | some s => return s
  | none => throw ⟨"list index out of range".toList⟩

/-- The outer loop of `_parse_peer_blocks`, at most `k` rounds.  The inner loop takes the lines up
to the next header. -/
def parsePeerBlocksLoop : ℕ → List Text → Options → Except AwgConfigError (List Options)
  | 0, _, _ => .ok []
  | _ + 1, [], _ => .ok []
  | k + 1, raw :: lines, pendingMarker =>
    let stripped := strip raw
    let marker := managedStartMarker stripped
    if !marker.items.isEmpty then parsePeerBlocksLoop k lines marker
    else if stripped = "[Peer]".toList then do
      let block := lines.takeWhile fun l => !isHeader (strip l)
      let s ← parseBlock (raw :: block)
      let peers ← parsePeerBlocksLoop k (lines.drop block.length) Dict.empty
      return s.options.update pendingMarker :: peers
    else if !stripped.isEmpty && !isComment stripped then parsePeerBlocksLoop k lines Dict.empty
    else parsePeerBlocksLoop k lines pendingMarker

/-- `_parse_peer_blocks`. -/
def parsePeerBlocks (text : Text) : Except AwgConfigError (List Options) :=
  parsePeerBlocksLoop (splitlines text).length (splitlines text) Dict.empty

/-- `list_config_peers`, on the text of the config file. -/
def listConfigPeers (text : Text) : Except AwgConfigError (List Options) := parsePeerBlocks text

end VpnBot.Awg
