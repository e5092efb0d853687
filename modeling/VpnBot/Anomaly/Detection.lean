import Mathlib.Data.List.Dedup
import Mathlib.Algebra.Order.Ring.Int
import VpnBot.Python.Dict
import VpnBot.Python.Text
import VpnBot.System.Program
import VpnBot.System.Run

/-!
# The anomaly detection

`AnomalyDetectionService` of `src/services/anomaly_detection.py`: one scan samples the connections of the
keys, judges each key by the networks that it has been seen in, and sends the alerts.  What a scan reads of
the host and of the database is its input; times are in ticks of the clock.

The access log of Xray grows by whole lines.  A line is given by its length in bytes and by what the two
regular expressions of the service find in it.  Beside the fields of the service the state has the log, the
alerts, and the lines of the log that were recorded.  Not modelled: the texts of the alerts, the revocation
of the keys, and the reading of the relays.
-/

namespace VpnBot.Anomaly

open Py Sys

def XRAY_LOG_TAIL_BYTES : ℕ := 2 * 1024 * 1024
def XRAY_LOG_FUTURE_SKEW_SECONDS : ℤ := 120

/-! ### The data -/

/-- The settings of the service; `network` is `normalize_ip`. -/
structure AnomalyConfig where
  windowSeconds : ℤ
  uniqueNets : ℕ
  cooldownSeconds : ℤ
  concurrentWindowSeconds : ℤ
  hysteria2MaxConn : ℕ
  network : Text → Text

/-- A line of the access log: its length with the line break, its timestamp, and the address and the label
of its connection. -/
structure LogLine where
  size : ℕ
  timestamp : Option ℤ
  origin : Option (Text × Text)

/-- An entry that the parser of the log returns, with the number of its line. -/
structure LogEntry where
  line : ℕ
  keyId : ℕ
  ip : Text
  timestamp : ℤ
  deriving DecidableEq

/-- What `get_by_id` and the repository of the bundles answer. -/
inductive RowRead
  | raised
  | missing
  | row (active : Bool)
  deriving DecidableEq

/-- What one scan meets.  `none` for the keys of a protocol says that reading them has raised; for the
endpoints, the log, the children of a bundle and the online counts it says that this has raised and was
logged. -/
structure ScanInput where
  now : ℤ
  relaySource : Text → Bool
  awgRemoved : Bool
  awgKeys : Option (Text → Option ℕ)
  awgEndpoints : Option (List (Text × Text))
  xrayRemoved : Bool
  xrayKeys : Option (Text → Option ℕ)
  logReadable : Bool
  rowOf : ℕ → RowRead
  bundleOf : ℕ → Option ℕ
  childrenOf : ℕ → Option (List ℕ)
  hysteria2Removed : Bool
  online : Option (List (Text × ℕ))
  hysteria2Keys : Option (Text → Option ℕ)

/-- The fields of the service, the log, the alerts by key and time, the lines that were handed to
`_record_ip`, and the time of the last scan. -/
structure AnomalySystem where
  observations : Dict ℕ (List (ℤ × Text))
  lastAlerted : Dict ℕ ℤ
  highWater : ℤ
  log : List LogLine
  alerts : List (ℕ × ℤ)
  recorded : List ℕ
  lastScan : Option ℤ

/-- Reading the keys or a row has raised. -/
inductive ScanError
  | raised
  deriving DecidableEq

/-- A method of the service. -/
abbrev AnomalyM := Program AnomalySystem ScanError

/-! ### Sampling -/

section Scan

variable (config : AnomalyConfig) (input : ScanInput)

/-- `_evict_stale_last_alerted`. -/
def evictStaleLastAlerted : AnomalyM Unit :=
  modify fun s => { s with
    lastAlerted := s.lastAlerted.filterMap fun time =>
      if time < input.now - config.cooldownSeconds then none else some time }

/-- `_record_ip`. -/
def recordIp (keyId : ℕ) (time : ℤ) (ip : Text) (s : AnomalySystem) : AnomalySystem :=
  if input.relaySource ip then s
  else { s with observations :=
    s.observations.set keyId (((s.observations.get? keyId).getD []) ++ [(time, ip)]) }

/-- `_sample_awg_endpoints`. -/
def sampleAwgEndpoints : AnomalyM Unit :=
  match input.awgKeys with
  | none => throw .raised
  | some keys => modify fun s =>
      (input.awgEndpoints.getD []).foldl (fun s endpoint =>
        match keys endpoint.1 with
        | some keyId => if endpoint.2 = [] then s else recordIp input keyId input.now endpoint.2 s
        | none => s) s

/-- The lines of the log with their numbers and the offsets at which they begin. -/
def positions : ℕ → ℕ → List LogLine → List (ℕ × ℕ × LogLine)
  | _, _, [] => []
  | n, offset, line :: lines => (n, offset, line) :: positions (n + 1) (offset + line.size) lines

/-- The lines that the service reads: with a long log the first, possibly partial, line at the offset is
skipped. -/
def logTail (log : List LogLine) : List (ℕ × LogLine) :=
  let readFrom := (log.map LogLine.size).sum - XRAY_LOG_TAIL_BYTES
  ((positions 0 0 log).filter fun p => readFrom = 0 || readFrom < p.2.1).map fun p => (p.1, p.2.2)

/-- The entry of a line, if the line is in the window and its key is active. -/
def entryOf (cutoff : ℤ) (keys : Text → Option ℕ) (line : ℕ × LogLine) : Option LogEntry := do
  let timestamp ← line.2.timestamp
  if timestamp < cutoff then none
  else do
    let origin ← line.2.origin
    let keyId ← keys origin.2
    return ⟨line.1, keyId, origin.1, timestamp⟩

/-- `_parse_xray_log_tail`. -/
def parseXrayLogTail (cutoff : ℤ) (keys : Text → Option ℕ) (log : List LogLine) : List LogEntry :=
  (logTail log).filterMap (entryOf cutoff keys)

/-- The loop over the entries of `_sample_xray_log`. -/
def ingest (previous : ℤ) (s : AnomalySystem) (entry : LogEntry) : AnomalySystem :=
  if entry.timestamp ≤ previous ∨ input.now + XRAY_LOG_FUTURE_SKEW_SECONDS < entry.timestamp then s
  else
    let s' := recordIp input entry.keyId entry.timestamp entry.ip s
    { s' with highWater := max s'.highWater entry.timestamp, recorded := s'.recorded ++ [entry.line] }

/-- `_sample_xray_log`. -/
def sampleXrayLog : AnomalyM Unit :=
  match input.xrayKeys with
  | none => throw .raised
  | some keys =>
    if !input.logReadable then return ()
    else modify fun s =>
      (parseXrayLogTail (input.now - config.windowSeconds) keys s.log).foldl (ingest input s.highWater) s

/-! ### The thresholds -/

/-- `_unique_ips_in_window` drops the observations up to the first one in the window. -/
def inWindow (observed : List (ℤ × Text)) : List (ℤ × Text) :=
  observed.dropWhile fun o => o.1 < input.now - config.windowSeconds

/-- The addresses that count, of the observations in the window. -/
def triggerIps (observed : List (ℤ × Text)) : List Text :=
  if 0 < config.concurrentWindowSeconds then
    (observed.filter fun o => input.now - config.concurrentWindowSeconds ≤ o.1).map Prod.snd
  else observed.map Prod.snd

/-- How many networks the addresses are in. -/
def netCount (ips : List Text) : ℕ := (ips.map config.network).dedup.length

/-- Keeps the observations in the window; a key without any is dropped, with its stamp. -/
def keepObserved (keyId : ℕ) (observed : List (ℤ × Text)) : AnomalyM Unit :=
  if observed.isEmpty then
    modify fun s => { s with
      observations := s.observations.erase keyId, lastAlerted := s.lastAlerted.erase keyId }
  else modify fun s => { s with observations := s.observations.set keyId observed }

/-- One turn of the loop of `_check_thresholds`; whether the key is to be alerted. -/
def judgeKey (keyId : ℕ) : AnomalyM Bool := do
  let s ← get
  let observed := inWindow config input ((s.observations.get? keyId).getD [])
  keepObserved keyId observed
  let s ← get
  if netCount config (triggerIps config input observed) < config.uniqueNets then return false
  else if input.now - (s.lastAlerted.get? keyId).getD 0 < config.cooldownSeconds then return false
  else
    match input.rowOf keyId with
    | .raised => throw .raised
    | .missing => return false
    | .row active => return active

/-- The loop of `_check_thresholds`; the keys to be alerted. -/
def judgeKeys : List ℕ → AnomalyM (List ℕ)
  | [] => return []
  | keyId :: keyIds => do
    let triggers ← judgeKey config input keyId
    let triggered ← judgeKeys keyIds
    return if triggers then keyId :: triggered else triggered

/-! ### The alerts -/

/-- The cooldown of the keys begins. -/
def stamp (now : ℤ) (keyIds : List ℕ) (s : AnomalySystem) : AnomalySystem :=
  { s with lastAlerted := keyIds.foldl (fun d keyId => d.set keyId now) s.lastAlerted }

/-- An alert about the keys is sent. -/
def fire (now : ℤ) (keyIds : List ℕ) (s : AnomalySystem) : AnomalySystem :=
  { s with alerts := s.alerts ++ keyIds.map fun keyId => (keyId, now) }

def alertKey (keyId : ℕ) (s : AnomalySystem) : AnomalySystem :=
  fire input.now [keyId] (stamp input.now [keyId] s)

/-- The keys to be alerted that belong to a bundle. -/
def members (triggered : List ℕ) (bundleId : ℕ) : List ℕ :=
  triggered.filter fun keyId => input.bundleOf keyId = some bundleId

/-- The alert of a bundle: `_stamp_bundle_cooldown` and `_fire_bundle_alert`. -/
def alertBundle (triggered : List ℕ) (bundleId : ℕ) (s : AnomalySystem) : AnomalySystem :=
  fire input.now (members input triggered bundleId)
    (stamp input.now (members input triggered bundleId ++ (input.childrenOf bundleId).getD []) s)

/-- The keys to be alerted that belong to no bundle. -/
def standalone (triggered : List ℕ) : List ℕ :=
  triggered.filter fun keyId => (input.bundleOf keyId).isNone

/-- The bundles of the others, in the order in which they come first. -/
def bundlesOf (triggered : List ℕ) : List ℕ := (triggered.filterMap input.bundleOf).reverse.dedup.reverse

/-- `_dispatch_alerts`. -/
def dispatchAlerts (triggered : List ℕ) (s : AnomalySystem) : AnomalySystem :=
  (bundlesOf input triggered).foldl (fun s bundleId => alertBundle input triggered bundleId s)
    ((standalone input triggered).foldl (fun s keyId => alertKey input keyId s) s)

/-- `_check_thresholds`. -/
def checkThresholds : AnomalyM Unit := do
  let s ← get
  let triggered ← judgeKeys config input s.observations.keys
  modify (dispatchAlerts input triggered)

/-- One turn of the loop of `_check_hysteria_online`. -/
def checkOnline (keys : Text → Option ℕ) (s : AnomalySystem) (online : Text × ℕ) : AnomalySystem :=
  if online.2 < config.hysteria2MaxConn then s
  else
    match keys online.1 with
    | none => s
    | some keyId =>
      if input.now - (s.lastAlerted.get? keyId).getD 0 < config.cooldownSeconds then s
      else alertKey input keyId s

/-- `_check_hysteria_online`. -/
def checkHysteriaOnline : AnomalyM Unit :=
  if config.hysteria2MaxConn = 0 then return ()
  else
    match input.online, input.hysteria2Keys with
    | none, _ | some [], _ => return ()
    | some (_ :: _), none => throw .raised
    | some online, some keys => modify fun s => online.foldl (checkOnline config input keys) s

/-! ### A scan -/

/-- The pass of a protocol, unless it has been removed from the host. -/
def unlessRemoved (removed : Bool) (pass : AnomalyM Unit) : AnomalyM Unit :=
  if removed then return () else pass

def sample : AnomalyM Unit := do
  unlessRemoved input.awgRemoved (sampleAwgEndpoints input)
  unlessRemoved input.xrayRemoved (sampleXrayLog config input)

/-- The beginning of `check_all`, before the keys are judged. -/
def collect : AnomalyM Unit := do
  evictStaleLastAlerted config input
  sample config input

/-- `check_all`. -/
def checkAll : AnomalyM Unit := do
  collect config input
  checkThresholds config input
  unlessRemoved input.hysteria2Removed (checkHysteriaOnline config input)

end Scan

/-- What happens: Xray writes a line, or the service scans. -/
inductive AnomalyEvent
  | append (line : LogLine)
  | scan (input : ScanInput)

/-- One event; what a scan raises is only logged. -/
def step (config : AnomalyConfig) (s : AnomalySystem) : AnomalyEvent → Option AnomalySystem
  | .append line => some { s with log := s.log ++ [line] }
  | .scan input => some { (Program.result (checkAll config input) s).2 with lastScan := some input.now }

/-- The service at its start. -/
def initial (log : List LogLine) : AnomalySystem := ⟨.empty, .empty, 0, log, [], [], none⟩

/-- A window of one hour, a cooldown of two, three networks within ten minutes. -/
def shortWindow : AnomalyConfig := ⟨3600, 3, 7200, 600, 0, id⟩

/-- A scan that finds one active key, whose label is `a`. -/
def scanAt (now : ℤ) : AnomalyEvent :=
  .scan ⟨now, fun _ => false, true, none, none, false, some fun label => if label = ['a'] then some 1 else none,
    true, fun _ => .row true, fun _ => none, fun _ => none, true, none, none⟩

end VpnBot.Anomaly
