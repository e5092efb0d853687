import Mathlib.Data.Int.Notation
import Mathlib.Logic.Function.Basic
import VpnBot.Keys.VpnKey
import VpnBot.System.Program
import VpnBot.System.Rows

/-!
# Traffic statistics

`src/repositories/traffic_stats.py` and the refresh of `src/services/traffic_stats.py`: a poll reads the
counters of the backends and writes, in one transaction, the totals of each key and what it adds to them
to the bucket of the hour.  Both directions are treated alike, so a pair of columns is a `PerDirection`.

A refresh runs under `_refresh_lock`, and nothing else writes the two tables; so it is one step.  Any of
its statements may raise, and a number that does not fit in 64 bits cannot be bound.  Times are seconds
of UTC.
-/

namespace VpnBot.Traffic

open Sys Program

/-! ### Both directions -/

/-- Download or upload. -/
inductive Direction
  | download
  | upload
  deriving DecidableEq

structure PerDirection (α : Type) where
  downloaded : α
  uploaded : α
  deriving DecidableEq

namespace PerDirection

variable {α β : Type}

def get (p : PerDirection α) : Direction → α
  | .download => p.downloaded
  | .upload => p.uploaded

def ofFn (f : Direction → α) : PerDirection α := ⟨f .download, f .upload⟩

def toList (p : PerDirection α) : List α := [p.downloaded, p.uploaded]

@[simp] theorem get_ofFn (f : Direction → α) (d : Direction) : (ofFn f).get d = f d := by
  cases d <;> rfl

theorem mem_toList (p : PerDirection α) (d : Direction) : p.get d ∈ p.toList := by
  cases d <;> simp [get, toList]

end PerDirection

/-! ### The tables -/

/-- A row of `vpn_key_traffic_stats`.  What is written there went through `max(_, 0)`. -/
structure TrafficStats where
  totals : PerDirection ℕ
  lastRaw : PerDirection (Option ℕ)
  lastSuccessAt : Option ℕ
  lastAttemptAt : Option ℕ
  available : Bool
  unavailableReason : Option String
  source : Option String
  deriving DecidableEq

/-- The primary key of `traffic_hourly`. -/
structure HourlySlot where
  hourUtc : ℕ
  keyId : ℕ
  protocol : VpnKeyType
  deriving DecidableEq

/-- A row of `traffic_hourly`; `none` is a REAL, which SQLite makes of a sum that is too large. -/
structure HourlyBucket where
  slot : HourlySlot
  bytes : PerDirection (Option ℕ)
  deriving DecidableEq

/-- The two tables. -/
structure TrafficDb where
  stats : ℕ → Option TrafficStats
  hourly : List HourlyBucket

/-- `downloaded_bytes + excluded.downloaded_bytes`. -/
def addInteger (stored : Option ℕ) (n : ℕ) : Option ℕ :=
  stored.bind fun m => if m + n ≤ maxInteger then some (m + n) else none

/-- The upsert of `traffic_hourly`. -/
def addToBucket (slot : HourlySlot) (delta : PerDirection ℕ) : List HourlyBucket → List HourlyBucket
  | [] => [⟨slot, .ofFn fun d => some (delta.get d)⟩]
  | row :: rows =>
    if row.slot = slot then
      { row with bytes := .ofFn fun d => addInteger (row.bytes.get d) (delta.get d) } :: rows
    else row :: addToBucket slot delta rows

/-! ### The repository -/

/-- What a refresh raises. -/
inductive TrafficError
  /-- `OverflowError`: an integer does not fit. -/
  | overflow
  /-- A statement raises, for instance because the row of the key is gone. -/
  | raised
  | missingRow
  deriving DecidableEq

inductive Statement
  | writeStats
  | writeHourly
  | readBack
  deriving DecidableEq

/-- The statements that raise. -/
abbrev Broken := Statement → Bool

/-- A program on the tables. -/
abbrev TrafficM := Program TrafficDb TrafficError

/-- A statement with the numbers that are bound to it. -/
def execute (raises : Bool) (numbers : List ℕ) (write : TrafficDb → TrafficDb) : TrafficM Unit :=
  if raises then throw .raised
  else if numbers.all (· ≤ maxInteger) then modify write
  else throw .overflow

/-- `HourlyTrafficDelta`. -/
structure HourlyTrafficDelta where
  protocol : VpnKeyType
  bytes : PerDirection ℤ

/-- `hour_utc_from_iso`. -/
def hourUtc (now : ℕ) : ℕ := now / 3600

namespace TrafficDb

/-- The row of a key becomes another one. -/
def setStats (keyId : ℕ) (row : TrafficStats) (db : TrafficDb) : TrafficDb :=
  { db with stats := Function.update db.stats keyId (some row) }

/-- The row of a key is changed, or inserted when there is none. -/
def upsertStats (keyId : ℕ) (row : TrafficStats) (change : TrafficStats → TrafficStats)
    (db : TrafficDb) : TrafficDb :=
  db.setStats keyId (((db.stats keyId).map change).getD row)

/-- Bytes are added to the bucket. -/
def addHourly (slot : HourlySlot) (delta : PerDirection ℕ) (db : TrafficDb) : TrafficDb :=
  { db with hourly := addToBucket slot delta db.hourly }

end TrafficDb

/-- `upsert_success`. -/
def upsertSuccess (broken : Broken) (keyId : ℕ) (totals : PerDirection ℤ)
    (raw : PerDirection (Option ℤ)) (now : ℕ) (source : String) (hourly : Option HourlyTrafficDelta) :
    TrafficM TrafficStats := do
  let stored : TrafficStats :=
    { totals := .ofFn fun d => (totals.get d).toNat
      lastRaw := .ofFn fun d => (raw.get d).map Int.toNat
      lastSuccessAt := some now
      lastAttemptAt := some now
      available := true
      unavailableReason := none
      source := some source }
  execute (broken .writeStats)
    (keyId :: stored.totals.toList ++ (stored.lastRaw.toList.filterMap fun n => n))
    (TrafficDb.setStats keyId stored)
  match hourly with
  | none => pure stored
  | some delta =>
    if delta.bytes.downloaded > 0 ∨ delta.bytes.uploaded > 0 then do
      let added : PerDirection ℕ := .ofFn fun d => (delta.bytes.get d).toNat
      execute (broken .writeHourly) (hourUtc now :: keyId :: added.toList)
        (TrafficDb.addHourly ⟨hourUtc now, keyId, delta.protocol⟩ added)
      pure stored
    else pure stored

/-- The row that a poll without counters inserts. -/
def zeroRow (now : ℕ) (available : Bool) (reason : Option String) (source : String) : TrafficStats where
  totals := ⟨0, 0⟩
  lastRaw := ⟨none, none⟩
  lastSuccessAt := none
  lastAttemptAt := some now
  available := available
  unavailableReason := reason
  source := some source

/-- `get_by_key_id` at the end of a write. -/
def readBack (broken : Broken) (keyId : ℕ) : TrafficM TrafficStats := do
  let db ← get
  if broken .readBack then throw .raised
  else match db.stats keyId with
    | none => throw .missingRow
    | some stats => pure stats

/-- `touch_attempt`. -/
def touchAttempt (broken : Broken) (keyId now : ℕ) (source : String) : TrafficM TrafficStats := do
  execute (broken .writeStats) [keyId]
    (TrafficDb.upsertStats keyId (zeroRow now true none source) fun row =>
      { row with lastAttemptAt := some now })
  readBack broken keyId

/-- `upsert_unavailable`. -/
def upsertUnavailable (broken : Broken) (keyId now : ℕ) (reason source : String) :
    TrafficM TrafficStats := do
  let reason := String.ofList (reason.toList.take 512)
  execute (broken .writeStats) [keyId]
    (TrafficDb.upsertStats keyId (zeroRow now false (some reason) source) fun row =>
      { row with
        lastAttemptAt := some now
        available := false
        unavailableReason := some reason
        source := some source })
  readBack broken keyId

/-! ### The service -/

/-- `_next_total`. -/
def nextTotal (previousTotal : ℤ) (previousRaw : Option ℤ) (currentRaw : ℤ) : ℤ :=
  let currentRaw := max currentRaw 0
  match previousRaw with
  | none => max previousTotal currentRaw
  | some previousRaw =>
    if currentRaw < previousRaw then previousTotal + currentRaw
    else previousTotal + (currentRaw - previousRaw)

/-- `_next_total_for_direction`. -/
def nextTotalForDirection (previousTotal : ℤ) (previousRaw currentRaw : Option ℤ) : ℤ × Option ℤ :=
  match currentRaw with
  | none => (previousTotal, previousRaw)
  | some currentRaw => (nextTotal previousTotal previousRaw currentRaw, some (max currentRaw 0))

/-- What a poll reads of a key. -/
structure TrafficKey where
  id : ℕ
  keyType : VpnKeyType
  publicKey : Option String
  emailLabel : Option String
  deriving DecidableEq

/-- `_store_success`. -/
def storeSuccess (broken : Broken) (key : TrafficKey) (previous : Option TrafficStats)
    (raw : PerDirection (Option ℤ)) (source : String) (now : ℕ) : TrafficM TrafficStats :=
  let previousTotal (d : Direction) : ℤ := previous.elim 0 fun stats => (stats.totals.get d : ℤ)
  let previousRaw (d : Direction) : Option ℤ :=
    previous.bind fun stats => (stats.lastRaw.get d).map Int.ofNat
  let next (d : Direction) := nextTotalForDirection (previousTotal d) (previousRaw d) (raw.get d)
  upsertSuccess broken key.id (.ofFn fun d => (next d).1) (.ofFn fun d => (next d).2) now source
    (some ⟨key.keyType, .ofFn fun d => (next d).1 - previousTotal d⟩)

/-- What the backends have answered; `none` is an error.  A pair is what a backend reports as received
and sent, or as uploaded and downloaded. -/
structure Counters where
  awgTransfers : Option (String → Option (ℤ × ℤ))
  xrayStats : Option (String → Option ℤ)
  hysteriaStats : Option (String → Option (ℤ × ℤ))

/-- `PUBLIC_BACKEND_STATS_ERROR`. -/
def publicBackendStatsError : String := "Не удалось получить данные от backend"

/-- `not text`. -/
def isMissing (text : Option String) : Bool := text.getD "" = ""

/-- `_refresh_awg_key`. -/
def refreshAwgKey (broken : Broken) (counters : Counters) (now : ℕ) (previous : Option TrafficStats)
    (key : TrafficKey) : TrafficM TrafficStats :=
  let source := "awg/wg transfer"
  match counters.awgTransfers with
  | none => upsertUnavailable broken key.id now publicBackendStatsError source
  | some transfers =>
    if isMissing key.publicKey then
      upsertUnavailable broken key.id now "У AWG-ключа нет public key для сопоставления статистики"
        source
    else match transfers (key.publicKey.getD "") with
      | none => upsertUnavailable broken key.id now "AWG peer не найден в выводе transfer" source
      | some (received, sent) => storeSuccess broken key previous ⟨some sent, some received⟩ source now

/-- `_refresh_xray_key`. -/
def refreshXrayKey (broken : Broken) (counters : Counters) (now : ℕ) (previous : Option TrafficStats)
    (key : TrafficKey) : TrafficM TrafficStats :=
  let source := "xray statsquery"
  match counters.xrayStats with
  | none => upsertUnavailable broken key.id now publicBackendStatsError source
  | some rawStats =>
    if isMissing key.emailLabel then
      upsertUnavailable broken key.id now "У Xray-ключа нет email/label для сопоставления статистики"
        source
    else
      let user := "user>>>" ++ key.emailLabel.getD ""
      let rawDownloaded := rawStats (user ++ ">>>traffic>>>downlink")
      let rawUploaded := rawStats (user ++ ">>>traffic>>>uplink")
      if rawDownloaded.isNone && rawUploaded.isNone then touchAttempt broken key.id now source
      else storeSuccess broken key previous ⟨rawDownloaded, rawUploaded⟩ source now

/-- `_refresh_hysteria_key`. -/
def refreshHysteriaKey (broken : Broken) (counters : Counters) (now : ℕ)
    (previous : Option TrafficStats) (key : TrafficKey) : TrafficM TrafficStats :=
  let source := "hysteria2 trafficStats"
  match counters.hysteriaStats with
  | none => upsertUnavailable broken key.id now publicBackendStatsError source
  | some rawStats =>
    if isMissing key.emailLabel then
      upsertUnavailable broken key.id now "У Hysteria2-ключа нет label для сопоставления статистики"
        source
    else match rawStats (key.emailLabel.getD "") with
      | none => touchAttempt broken key.id now source
      | some (uploaded, downloaded) =>
        storeSuccess broken key previous ⟨some downloaded, some uploaded⟩ source now

def refreshKey (broken : Broken) (counters : Counters) (now : ℕ) (previous : Option TrafficStats)
    (key : TrafficKey) : TrafficM TrafficStats :=
  match key.keyType with
  | .awg => refreshAwgKey broken counters now previous key
  | .xray => refreshXrayKey broken counters now previous key
  | .hysteria2 => refreshHysteriaKey broken counters now previous key

/-- A poll: the keys, which every caller lists by their primary key, the answers of the backends, the
time at which each key is written, and the statements that raise. -/
structure Poll where
  keys : List TrafficKey
  distinct : (keys.map TrafficKey.id).Nodup
  counters : Counters
  now : ℕ → ℕ
  broken : ℕ → Broken

/-- The loop of `refresh_views`. -/
def refreshKeys (poll : Poll) (current : ℕ → Option TrafficStats) :
    List TrafficKey → TrafficM (List TrafficStats)
  | [] => pure []
  | key :: keys => do
    let stats ← refreshKey (poll.broken key.id) poll.counters (poll.now key.id) (current key.id) key
    let rest ← refreshKeys poll current keys
    pure (stats :: rest)

/-- `refresh_views`, from the read of the stored rows on. -/
def refreshViews (poll : Poll) : TrafficM (List TrafficStats) := do
  let db ← get
  transaction (refreshKeys poll db.stats poll.keys)

/-- The tables after a poll, whether it returns or raises. -/
def TrafficDb.poll (db : TrafficDb) (poll : Poll) : TrafficDb :=
  match refreshViews poll db with
  | .ok _ db' => db'
  | .error _ db' => db'

/-- The tables after some polls. -/
def TrafficDb.polls (db : TrafficDb) (polls : List Poll) : TrafficDb := polls.foldl TrafficDb.poll db

end VpnBot.Traffic
