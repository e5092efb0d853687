import Mathlib.Data.Rat.Defs
import VpnBot.Relays.Service

/-!
# The health supervisor of the relays

`src/services/relay_health.py`: one loop probes every enabled relay in a pass, and feeds a latch for each.
A pass is a `load` of the relays and a `probed` for each enabled one; between these an admin may probe a
relay by hand.  A probe of the loop, its step of the latch and the message about it are one step, since
nothing else reads or writes what they touch.

`observed` is the past of a relay, with one entry for each pass: nothing when the pass has found it
disabled or gone, or the check with what it has sent.

The clock gives rational numbers, which are subtracted exactly.  Not modelled: the texts, and a single admin who
cannot be reached.
-/

namespace VpnBot.Relays.Health

open Py Sys

/-! ### The latch -/

/-- A crossing of the latch, and the message about it. -/
inductive Kind
  | down
  | recovered
  deriving DecidableEq

/-- The state of a `RelayHealthMonitor`. -/
structure RelayHealthMonitor where
  healthy : Bool
  failSince : Option ℚ
  successSince : Option ℚ
  deriving DecidableEq

/-- A new monitor: up, and nothing seen. -/
def RelayHealthMonitor.new : RelayHealthMonitor := ⟨true, none, none⟩

/-- `check_once` after the probe, with what it has to tell. -/
def RelayHealthMonitor.check (failWindow recoverWindow : ℚ) (m : RelayHealthMonitor) (ok : Bool)
    (now : ℚ) : RelayHealthMonitor × Option Kind :=
  if ok then
    let since := m.successSince.getD now
    if !m.healthy && recoverWindow ≤ now - since then (⟨true, none, some since⟩, some .recovered)
    else (⟨m.healthy, none, some since⟩, none)
  else
    let since := m.failSince.getD now
    if m.healthy && failWindow ≤ now - since then (⟨false, some since, none⟩, some .down)
    else (⟨m.healthy, some since, none⟩, none)

/-! ### The supervisor -/

/-- How a probe ends. -/
inductive ProbeRun
  | completed (ok : Bool)
  | raised

/-- A probe that raises counts as a failure. -/
def ProbeRun.ok : ProbeRun → Bool
  | .completed ok => ok
  | .raised => false

/-- `ProbeResult`. -/
structure ProbeResult where
  ok : Bool
  checkedAt : Text
  host : Text

/-- The check of a relay in a pass, and what it has sent. -/
structure Check where
  ok : Bool
  now : ℚ
  sent : Option Kind
  deriving DecidableEq

/-- The dictionaries of the supervisor, the relays that the pass has yet to check, the messages sent, and the
past of each relay. -/
structure Supervisor where
  current : ℕ → Option Relay
  monitors : ℕ → Option RelayHealthMonitor
  last : ℕ → Option ProbeResult
  queue : List Relay
  broadcasts : List (Kind × Relay)
  observed : ℕ → List (Option Check)

/-- What happens next: a pass loads the relays or fails to, the next relay of the pass is probed, or an
admin probes one. -/
inductive Action
  | load (relays : List Relay)
  | loadRaises
  | probed (run : ProbeRun) (now : ℚ) (checkedAt : Text)
  | probeNow (relay : Relay) (run : ProbeRun) (checkedAt : Text)

/-- A value at one key. -/
def set {α : Type} (f : ℕ → α) (id : ℕ) (a : α) : ℕ → α := fun other => if other = id then a else f other

namespace Supervisor

/-- The relay is enabled in the list. -/
def Enabled (relays : List Relay) (id : ℕ) : Prop := ∃ relay ∈ relays, relay.enabled = true ∧ relay.id = id

instance (relays : List Relay) (id : ℕ) : Decidable (Enabled relays id) :=
  inferInstanceAs (Decidable (∃ relay ∈ relays, relay.enabled = true ∧ relay.id = id))

/-- The first part of `check_once`. -/
def load (relays : List Relay) (s : Supervisor) : Supervisor :=
  { s with
    monitors := fun id => if Enabled relays id then s.monitors id else none
    last := fun id => if id ∈ relays.map Relay.id then s.last id else none
    current := fun id => relays.reverse.find? fun relay => relay.id = id
    queue := relays.filter fun relay => relay.enabled
    observed := fun id => if Enabled relays id then s.observed id else s.observed id ++ [none] }

/-- `_run_probe`: the result is kept, unless the probe raises. -/
def recordProbe (relay : Relay) (run : ProbeRun) (checkedAt : Text) (s : Supervisor) : Supervisor :=
  match run with
  | .completed ok => { s with last := set s.last relay.id (some ⟨ok, checkedAt, relay.host⟩) }
  | .raised => s

/-- The message about a crossing, if there is one. -/
def broadcast (sent : Option Kind) (relay : Relay) (s : Supervisor) : Supervisor :=
  match sent with
  | none => s
  | some kind => { s with broadcasts := s.broadcasts ++ [(kind, relay)] }

/-- The check of a relay: the probe, the latch and the message; `row` is the current row of the relay. -/
def check (window : ℚ) (id : ℕ) (row : Relay) (run : ProbeRun) (now : ℚ) (checkedAt : Text)
    (s : Supervisor) : Supervisor :=
  let r := ((s.monitors id).getD .new).check window window run.ok now
  broadcast r.2 row
    { s.recordProbe row run checkedAt with
      monitors := set s.monitors id (some r.1)
      observed := set s.observed id (s.observed id ++ [some ⟨run.ok, now, r.2⟩]) }

end Supervisor

/-- One step; both windows are the same. -/
def step (window : ℚ) (s : Supervisor) : Action → Option Supervisor
  | .load relays => if s.queue = [] then some (s.load relays) else none
  | .loadRaises => if s.queue = [] then some s else none
  | .probed run now checkedAt =>
    match s.queue with
    | [] => none
    | relay :: queue =>
      (s.current relay.id).map fun row =>
        { s.check window relay.id row run now checkedAt with queue := queue }
  | .probeNow relay run checkedAt => some (s.recordProbe relay run checkedAt)

/-- Nothing has been seen. -/
def start : Supervisor := ⟨fun _ => none, fun _ => none, fun _ => none, [], [], fun _ => []⟩

end VpnBot.Relays.Health
