import Mathlib.Data.List.Forall2
import Mathlib.Data.List.Sort
import Mathlib.Data.Prod.Lex
import VpnBot.KeyBundles.Composition
import VpnBot.Python.Lines
import VpnBot.Relays.Service

/-!
# Rendering a subscription

`render_links` of `src/subscription_server/render.py` with the order of `subscription_sort_key`, the naming
of `src/services/key_naming.py` and the relays of `src/services/relay.py`; and the order of the «Состав»
preview of `src/bot/bundles.py`.

A link is put together from its parts by `LinkFormat`, which is the percent-encoding of the parts and the
settings that all links share.  Not modelled: the body, the headers, and the texts of the
preview.
-/

namespace VpnBot.Subscription

open Py
open Bundles (KeyBundleKind XhttpProfile bundleComposition)
open KeyBundles (memberName profileName xrayName)
open Relays (Relay)

/-! ### The data -/

/-- The fields of `payload` and of `public_payload` that a link reads. -/
structure KeyPayload where
  uuid : Option Text
  shortId : Option Text
  publicShortId : Option Text
  emailLabel : Option Text
  fingerprint : Option Text
  secret : Option Text
  transport : Option Text
  xhttpProfile : Option Text
  spiderX : Option Text
  deriving DecidableEq

/-- A row of `vpn_keys`. -/
structure VpnKey where
  id : ℕ
  keyType : VpnKeyType
  status : VpnKeyStatus
  relay : Option Text
  uuid : Option Text
  emailLabel : Option Text
  transport : Option Text
  xhttpProfile : Option Text
  spiderX : Option Text
  payload : KeyPayload
  deriving DecidableEq

/-- The children of a bundle as they were read; no two have one id. -/
structure Children where
  keys : List VpnKey
  nodup : (keys.map VpnKey.id).Nodup

/-- `RelaySnapshot`: the relays in the order of their ids. -/
structure RelaySnapshot where
  relays : List Relay

/-- `NameStyle`. -/
inductive NameStyle
  | single
  | basic
  | extended
  deriving DecidableEq

/-- Why a link cannot be rendered. -/
inductive RenderError
  | noCredential (id : ℕ)
  | cannotRide (id : ℕ)
  | relayUnavailable (relay : Text)
  | encoding
  deriving DecidableEq

/-- The parts of a `vless://` link. -/
structure VlessLink where
  uuid : Text
  shortId : Text
  name : Text
  fingerprint : Option Text
  transport : Transport
  profile : XhttpProfile
  spiderX : Option Text
  host : Text

/-- The parts of a `hysteria2://` link. -/
structure Hysteria2Link where
  name : Text
  secret : Text
  host : Text

/-- How the parts become a link; `none` says that the encoding has raised. -/
structure LinkFormat where
  vless : VlessLink → Option Text
  hysteria2 : Hysteria2Link → Option Text

/-- The settings; `rotation` is `rotating_spider_x` by the UUID and the instant, while it is on. -/
structure Settings where
  xrayPublicHost : Text
  hysteria2Host : Text
  serverFlagEmoji : Text
  rotation : Option (Text → ℤ → Text)
  format : LinkFormat

/-- The link that an encoding returns. -/
def encoded : Option Text → Except RenderError Text
  | some link => .ok link
  | none => .error .encoding

/-- `value or other`. -/
def orElse : Option Text → Text → Text
  | none, other => other
  | some [], other => other
  | some (c :: t), _ => c :: t

/-! ### Relays -/

namespace RelaySnapshot

variable (relays : RelaySnapshot)

/-- `RelaySnapshot.get`. -/
def get (name : Text) : Option Relay := relays.relays.find? fun relay => relay.name = name

/-- `group_of`. -/
def groupOf : Option Text → ℕ
  | none => 0
  | some name => relays.relays.findIdx (fun relay => relay.name = name) + 1

/-- `relay_available`. -/
def relayAvailable (relay : Text) : Bool :=
  match relays.get relay with
  | some known => known.enabled && !known.host.isEmpty
  | none => false

/-- `relay_link_host`. -/
def relayLinkHost (relay : Option Text) (directHost : Text) : Except RenderError Text :=
  match relay with
  | none => .ok directHost
  | some relay =>
    match relays.get relay with
    | some known => if known.enabled && !known.host.isEmpty then .ok known.host else .error (.relayUnavailable relay)
    | none => .error (.relayUnavailable relay)

/-- `relay_marker`. -/
def relayMarker (relay : Text) : Except RenderError Text :=
  match relays.get relay with
  | some known => .ok known.label
  | none => .error (.relayUnavailable relay)

end RelaySnapshot

/-! ### Names -/

/-- `t.lower()`, as far as the comparisons of the code see it. -/
def lower (t : Text) : Text := t.map Char.toLower

/-- `normalize_transport`. -/
def normalizeTransport (value : Text) : Transport :=
  if lower (strip value) = "http".toList then .http else .tcp

/-- `XHTTP_PROFILES`. -/
def XHTTP_PROFILES : List XhttpProfile := [.base, .multi, .antisib]

/-- `normalize_profile`. -/
def normalizeProfile (value : Text) : XhttpProfile :=
  (XHTTP_PROFILES.find? fun profile => profileName profile = lower (strip value)).getD .base

/-- `key_transport`. -/
def keyTransport (key : VpnKey) : Transport :=
  normalizeTransport (orElse key.transport (orElse key.payload.transport []))

/-- `key_profile`. -/
def keyProfile (key : VpnKey) : XhttpProfile :=
  let raw := orElse key.xhttpProfile (orElse key.payload.xhttpProfile [])
  if raw = [] then
    let label := orElse key.emailLabel (orElse key.payload.emailLabel [])
    (XHTTP_PROFILES.find? fun profile => (xrayName .http profile ++ ['_']).isPrefixOf label).getD .base
  else normalizeProfile raw

/-- `key_member_name`. -/
def keyMemberName (key : VpnKey) : Text :=
  match key.keyType with
  | .xray => xrayName (keyTransport key) (keyProfile key)
  | .hysteria2 => "hysteria2".toList
  | .awg => "awg".toList

/-- `key_label`. -/
def keyLabel (key : VpnKey) : Text :=
  match key.keyType with
  | .xray => orElse key.payload.emailLabel (orElse key.emailLabel [])
  | .hysteria2 | .awg => orElse key.emailLabel (orElse key.payload.emailLabel [])

/-- `PREFERENCE_MARKS`. -/
def preferenceMark (name : Text) : Text :=
  if name = "xray_tcp".toList ∨ name = "hysteria2".toList then "🟢".toList
  else if name = "xray_http_base".toList then "🟡".toList
  else if name = "xray_http_multi".toList then "🟠".toList
  else if name = "xray_http_antisib".toList then "🔴".toList
  else []

/-- `BASIC_ALT_SUFFIX`. -/
def BASIC_ALT_SUFFIX : Text := "(alt.)".toList

/-- `bundle_name_style`. -/
def bundleNameStyle : KeyBundleKind → NameStyle
  | .basic => .basic
  | .extended => .extended

def nameTail (settings : Settings) (style : NameStyle) (key : VpnKey) : Text :=
  match style with
  | .extended => preferenceMark (keyMemberName key)
  | .basic =>
    if key.keyType = .hysteria2 then settings.serverFlagEmoji ++ BASIC_ALT_SUFFIX else settings.serverFlagEmoji
  | .single => settings.serverFlagEmoji

section Links

variable (settings : Settings) (relays : RelaySnapshot) (style : NameStyle) (now : ℤ)

/-- `key_display_name`. -/
def keyDisplayName (key : VpnKey) : Except RenderError Text :=
  let label := keyLabel key
  let tail := nameTail settings style key
  if label = [] then .ok []
  else
    match key.relay with
    | some (c :: relay) => do
      let marker ← relays.relayMarker (c :: relay)
      return label ++ ['_'] ++ marker ++ tail
    | none | some [] => .ok (if tail = [] then label else label ++ ['_'] ++ tail)

/-! ### Links -/

/-- `_key_spider_x`. -/
def keySpiderX (key : VpnKey) : Option Text :=
  match strip (orElse key.spiderX (orElse key.payload.spiderX [])) with
  | [] => none
  | value => some value

/-- `link_spider_x` for a child of a bundle. -/
def linkSpiderX (key : VpnKey) : Option Text :=
  match settings.rotation, orElse key.payload.uuid (orElse key.uuid []) with
  | none, _ | some _, [] => keySpiderX key
  | some rotate, uuid => some (rotate uuid now)

/-- `_VlessLinkRenderer.vless_link`. -/
def vlessLink (key : VpnKey) : Except RenderError Text :=
  let uuid := orElse key.payload.uuid (orElse key.uuid [])
  let emailLabel := orElse key.payload.emailLabel (orElse key.emailLabel [])
  if uuid = [] ∨ emailLabel = [] then .error (.noCredential key.id)
  else do
    let name ← keyDisplayName settings relays style key
    let host ← relays.relayLinkHost key.relay settings.xrayPublicHost
    encoded (settings.format.vless {
      uuid := uuid
      shortId := orElse key.payload.shortId (orElse key.payload.publicShortId [])
      name := name
      fingerprint := key.payload.fingerprint.filter fun value => !value.isEmpty
      transport := keyTransport key
      profile := keyProfile key
      spiderX := linkSpiderX settings now key
      host := host })

/-- `_hysteria2_link`. -/
def hysteria2Link (key : VpnKey) : Except RenderError Text :=
  let secret := orElse key.payload.secret []
  if secret = [] ∨ orElse key.emailLabel [] = [] then .error (.noCredential key.id)
  else do
    let name ← keyDisplayName settings relays style key
    let host ← relays.relayLinkHost key.relay settings.hysteria2Host
    encoded (settings.format.hysteria2 ⟨name, secret, host⟩)

def renderChild (key : VpnKey) : Except RenderError Text :=
  match key.keyType with
  | .xray => vlessLink settings relays style now key
  | .hysteria2 => hysteria2Link settings relays style key
  | .awg => .error (.cannotRide key.id)

end Links

/-! ### The order -/

/-- `subscription_member_order`. -/
def subscriptionMemberOrder : List Text := (bundleComposition .extended []).map memberName

/-- `subscription_sort_key`; `idxOf` is the length of the list for a name that is not in it. -/
def subscriptionSortKey (relays : RelaySnapshot) (key : VpnKey) : ℕ ×ₗ ℕ ×ₗ ℕ :=
  toLex (relays.groupOf key.relay, toLex (subscriptionMemberOrder.idxOf (keyMemberName key), key.id))

/-- `_ordered_children`. -/
def orderedChildren (relays : RelaySnapshot) (keys : List VpnKey) : List VpnKey :=
  keys.insertionSort fun a b => subscriptionSortKey relays a ≤ subscriptionSortKey relays b

/-- `_in_subscription_order` of the preview. -/
def inSubscriptionOrder (relays : RelaySnapshot) (keys : List VpnKey) : List VpnKey :=
  keys.insertionSort fun a b => subscriptionSortKey relays a ≤ subscriptionSortKey relays b

/-! ### The subscription -/

/-- `BundleView`. -/
structure BundleView where
  kind : KeyBundleKind
  keys : List VpnKey
  relays : RelaySnapshot

/-- What `load_active_bundle` reads of an active bundle. -/
def bundleView (kind : KeyBundleKind) (children : Children) (relays : RelaySnapshot) : BundleView :=
  ⟨kind, children.keys.filter fun key => key.status = .active, relays⟩

/-- The relay of the child is switched off, deleted or unknown. -/
def isSkipped (relays : RelaySnapshot) (key : VpnKey) : Bool :=
  key.relay.any fun relay => !relays.relayAvailable relay

/-- The loop of `render_links`. -/
def renderEach (settings : Settings) (relays : RelaySnapshot) (style : NameStyle) (now : ℤ) :
    List VpnKey → Except RenderError (List Text)
  | [] => .ok []
  | key :: keys =>
    if isSkipped relays key then renderEach settings relays style now keys
    else do
      let link ← renderChild settings relays style now key
      let links ← renderEach settings relays style now keys
      return link :: links

/-- `render_links`; `now` is the instant that the clock gives. -/
def renderLinks (settings : Settings) (now : ℤ) (view : BundleView) : Except RenderError (List Text) :=
  renderEach settings view.relays (bundleNameStyle view.kind) now (orderedChildren view.relays view.keys)

end VpnBot.Subscription
