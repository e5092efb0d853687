import Mathlib.Data.Rat.Defs
import Mathlib.Algebra.Order.Field.Rat
import VpnBot.System.Program
import VpnBot.System.Run

/-!
# The health monitor of the tunnel

`WarpHealthMonitor` of `src/warp/health.py` and the route callbacks that `src/warp/manager.py` gives it.
One check reads the clock, probes the tunnel and moves the latch; what the callbacks do is given by the
input of the check.  Times are in ticks of the monotonic clock.

Beside the fields of the monitor the state has what is seen outside: the checks that have answered, the
crossings of the latch, the alerts, the snapshots, and the last route operation that took effect.  Not
modelled: the texts, and the cadence of the probes.
-/

namespace VpnBot.Warp.Health

open Sys

/-! ### Constants -/

def DEGRADED_WINDOW_SECONDS : ℤ := 120
def DEGRADED_MIN_SAMPLES : ℕ := 10
def DEGRADED_LOSS_THRESHOLD : ℚ := 1 / 2
def DEGRADED_CLEAR_THRESHOLD : ℚ := 1 / 5

/-! ### The state -/

/-- An operation of the routes helper. -/
inductive RouteOp
  | activate
  | deactivate
  deriving DecidableEq

/-- How a call of the routes helper ends: with a result that is ok or not, or by raising. -/
inductive RouteOutcome
  | ok
  | failed
  | raised
  deriving DecidableEq

inductive Crossing
  | down
  | recovered
  deriving DecidableEq

inductive Alert
  | degraded (loss : ℚ)
  | degradedCleared
  | routesMissing
  | routesRestored
  deriving DecidableEq

/-- `HealthSnapshot`. -/
structure HealthSnapshot where
  tunnelUp : Bool
  routesActive : Bool
  failStreak : ℕ
  successStreak : ℕ
  degraded : Bool
  deriving DecidableEq

/-- The parameters of the monitor; the source rules are checked when there is a checker. -/
structure MonitorConfig where
  failWindow : ℤ
  recoverWindow : ℤ
  observerMode : Bool
  checksSourceRules : Bool

/-- The monitor that owns the routes, as the manager builds it: without a checker of the source rules. -/
def legacy (failWindow recoverWindow : ℤ) : MonitorConfig := ⟨failWindow, recoverWindow, false, false⟩

/-- The fields of the monitor that a check reads or writes. -/
structure HealthMonitor where
  failStreak : ℕ
  successStreak : ℕ
  failSince : Option ℤ
  successSince : Option ℤ
  lastOk : Option Bool
  healthy : Bool
  routesActive : Bool
  samples : List (ℤ × Bool)
  degraded : Bool
  sourceRulesPresent : Bool

/-- The monitor, and what is seen of it outside: the checks with an answer, newest first, and in their
order the crossings, the crossings that were notified, the alerts, the numbers of samples on which the loss
was evaluated, and the snapshots, each with the last route operation that had taken effect. -/
structure HealthSystem where
  monitor : HealthMonitor
  checks : List (ℤ × Bool)
  crossings : List Crossing
  notified : List Crossing
  alerts : List Alert
  evaluated : List ℕ
  lastSucceeded : RouteOp
  reports : List (HealthSnapshot × RouteOp)

/-- What the checker of the source rules answers. -/
inductive SourceRules
  | present
  | missing
  | unknown
  | raised
  deriving DecidableEq

/-- What one check meets: the clock, the answer of the probe (`none` when it raises), the kill-switch, how
the routes helper ends if it is called, and the source rules. -/
structure CheckInput where
  now : ℤ
  probe : Option Bool
  killSwitch : Bool
  route : RouteOutcome
  sourceRules : SourceRules

/-- A callback has raised. -/
inductive CheckError
  | raised
  deriving DecidableEq

/-- A method of the monitor. -/
abbrev HealthM := Program HealthSystem CheckError

/-! ### The check -/

/-- Changes the fields of the monitor. -/
def setMonitor (f : HealthMonitor → HealthMonitor) : HealthM Unit :=
  modify fun s => { s with monitor := f s.monitor }

/-- `_activate_routes` and `_deactivate_routes` of the manager: a result that is not ok is only logged. -/
def callRoutes (op : RouteOp) (outcome : RouteOutcome) : HealthM Unit :=
  match outcome with
  | .ok => modify fun s => { s with lastSucceeded := op }
  | .failed => return ()
  | .raised => throw .raised

/-- An alert; what its callback raises is suppressed. -/
def alert (a : Alert) : HealthM Unit := modify fun s => { s with alerts := s.alerts ++ [a] }

def notify (c : Crossing) : HealthM Unit := modify fun s => { s with notified := s.notified ++ [c] }

section Check

variable (config : MonitorConfig) (input : CheckInput)

/-- `_mark_recovered`. -/
def markRecovered : HealthM Unit := do
  modify fun s => { s with
    monitor := { s.monitor with healthy := true }, crossings := s.crossings ++ [.recovered] }
  if !config.observerMode then do
    callRoutes .activate input.route
    setMonitor fun m => { m with routesActive := true }
  notify .recovered

/-- `_mark_down`. -/
def markDown : HealthM Unit := do
  modify fun s => { s with
    monitor := { s.monitor with healthy := false }, crossings := s.crossings ++ [.down] }
  if !config.observerMode && !input.killSwitch then do
    callRoutes .deactivate input.route
    setMonitor fun m => { m with routesActive := false }
  notify .down

/-- The latch, when the probe has succeeded. -/
def checkGood : HealthM Unit := do
  setMonitor fun m => { m with
    lastOk := some true, successStreak := m.successStreak + 1, failStreak := 0, failSince := none,
    successSince := some (m.successSince.getD input.now) }
  let s ← get
  if !s.monitor.healthy &&
      decide (config.recoverWindow ≤ input.now - s.monitor.successSince.getD input.now) then
    markRecovered config input
  else return ()

/-- The latch, when the probe has failed. -/
def checkBad : HealthM Unit := do
  setMonitor fun m => { m with
    lastOk := some false, failStreak := m.failStreak + 1, successStreak := 0, successSince := none,
    failSince := some (m.failSince.getD input.now) }
  let s ← get
  if s.monitor.healthy &&
      decide (config.failWindow ≤ input.now - s.monitor.failSince.getD input.now) then
    markDown config input
  else return ()

/-- What a probe that has answered does to the latch. -/
def checkLatch (ok : Bool) : HealthM Unit :=
  if ok then checkGood config input else checkBad config input

/-- The samples from the first one that is inside the window. -/
def pruneSamples (now : ℤ) (samples : List (ℤ × Bool)) : List (ℤ × Bool) :=
  samples.dropWhile fun sample => sample.1 < now - DEGRADED_WINDOW_SECONDS

/-- The share of the failed probes. -/
def lossOf (samples : List (ℤ × Bool)) : ℚ :=
  (samples.countP fun sample => !sample.2 : ℕ) / (samples.length : ℚ)

/-- `_evaluate_degraded`. -/
def evaluateDegraded (ok : Bool) : HealthM Unit := do
  setMonitor fun m => { m with samples := pruneSamples input.now (m.samples ++ [(input.now, ok)]) }
  let s ← get
  let samples := s.monitor.samples
  if samples.length < DEGRADED_MIN_SAMPLES then return ()
  else do
    modify fun s => { s with evaluated := s.evaluated ++ [samples.length] }
    let loss := lossOf samples
    if !s.monitor.degraded && s.monitor.healthy && decide (DEGRADED_LOSS_THRESHOLD ≤ loss) then do
      setMonitor fun m => { m with degraded := true }
      alert (.degraded loss)
    else if s.monitor.degraded && decide (loss < DEGRADED_CLEAR_THRESHOLD) then do
      setMonitor fun m => { m with degraded := false }
      alert .degradedCleared
    else return ()

/-- `_evaluate_source_rules`. -/
def evaluateSourceRules : HealthM Bool :=
  if !config.checksSourceRules then return true
  else
    match input.sourceRules with
    | .raised => throw .raised
    | .unknown => do
      let s ← get
      return s.monitor.sourceRulesPresent
    | .present => do
      let s ← get
      if !s.monitor.sourceRulesPresent then do
        setMonitor fun m => { m with sourceRulesPresent := true }
        alert .routesRestored
      return true
    | .missing => do
      let s ← get
      if s.monitor.sourceRulesPresent then do
        setMonitor fun m => { m with sourceRulesPresent := false }
        alert .routesMissing
      return false

/-- The snapshot at the end of a check. -/
def snapshotOf (ok rulesPresent : Bool) (m : HealthMonitor) : HealthSnapshot where
  tunnelUp := ok
  routesActive := m.routesActive && rulesPresent
  failStreak := m.failStreak
  successStreak := m.successStreak
  degraded := m.degraded || !rulesPresent

/-- `check_once`; what the callback of the snapshot raises changes nothing. -/
def checkOnce : HealthM Unit :=
  match input.probe with
  | none => throw .raised
  | some ok => do
    modify fun s => { s with checks := (input.now, ok) :: s.checks }
    checkLatch config input ok
    evaluateDegraded input ok
    let rulesPresent ← evaluateSourceRules config input
    modify fun s => { s with
      reports := s.reports ++ [(snapshotOf ok rulesPresent s.monitor, s.lastSucceeded)] }

/-- One turn of `run`: what a check raises is only logged. -/
def step (s : HealthSystem) (input : CheckInput) : Option HealthSystem :=
  some (Program.result (checkOnce config input) s).2

end Check

/-- A monitor that has not checked yet, and whose routes are as the last operation has left them. -/
def start (active : Bool) : HealthSystem where
  monitor := ⟨0, 0, none, none, none, active, active, [], false, true⟩
  checks := []
  crossings := []
  notified := []
  alerts := []
  evaluated := []
  lastSucceeded := if active then .activate else .deactivate
  reports := []

end VpnBot.Warp.Health
