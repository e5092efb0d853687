import VpnBot.Warp.Health

/-!
# The latch of the health monitor

What one check does to the latch (`CheckEnd`), and from it the invariant of all runs: the marks of the
monitor begin unbroken runs of checks, and the crossings alternate (`LatchInv`).  `latch_of_run` is the
result; `recovered_first` has a monitor that begins with inactive routes.
-/

namespace VpnBot.Warp.Health

open Sys

variable {config : MonitorConfig} {input : CheckInput} {s s₁ s' : HealthSystem} {active ok : Bool}
  {inputs : List CheckInput} {now t : ℤ} {checks : List (ℤ × Bool)}

/-! ### What a check does -/

/-- The part of the state that only the latch moves. -/
structure SameLatch (s s' : HealthSystem) : Prop where
  checks : s'.checks = s.checks
  failSince : s'.monitor.failSince = s.monitor.failSince
  successSince : s'.monitor.successSince = s.monitor.successSince
  healthy : s'.monitor.healthy = s.monitor.healthy
  routesActive : s'.monitor.routesActive = s.monitor.routesActive
  crossings : s'.crossings = s.crossings
  notified : s'.notified = s.notified
  lastSucceeded : s'.lastSucceeded = s.lastSucceeded

theorem SameLatch.rfl' : SameLatch s s := ⟨rfl, rfl, rfl, rfl, rfl, rfl, rfl, rfl⟩

theorem SameLatch.trans (h : SameLatch s s₁) (h' : SameLatch s₁ s') : SameLatch s s' :=
  ⟨h'.checks.trans h.checks, h'.failSince.trans h.failSince, h'.successSince.trans h.successSince,
    h'.healthy.trans h.healthy, h'.routesActive.trans h.routesActive, h'.crossings.trans h.crossings,
    h'.notified.trans h.notified, h'.lastSucceeded.trans h.lastSucceeded⟩

/-- What the end of a check does: it evaluates the loss on enough samples only, and reports the flag of
the routes as the latch has left it. -/
structure CheckTail (config : MonitorConfig) (s s' : HealthSystem) : Prop where
  latch : SameLatch s s'
  evaluated : s'.evaluated = s.evaluated ∨
    ∃ n, DEGRADED_MIN_SAMPLES ≤ n ∧ s'.evaluated = s.evaluated ++ [n]
  reports : s'.reports = s.reports ∨ ∃ snapshot : HealthSnapshot,
    (config.checksSourceRules = false → snapshot.routesActive = s.monitor.routesActive) ∧
      s'.reports = s.reports ++ [(snapshot, s.lastSucceeded)]

/-- What the loss does. -/
theorem ends_evaluateDegraded :
    Program.Ends (evaluateDegraded input ok)
      (fun _ s' => SameLatch s s' ∧ s'.reports = s.reports ∧ (s'.evaluated = s.evaluated ∨
        ∃ n, DEGRADED_MIN_SAMPLES ≤ n ∧ s'.evaluated = s.evaluated ++ [n])) (fun _ _ => False) s := by
  unfold evaluateDegraded setMonitor
  rw [Program.ends_bind, Program.ends_modify, Program.ends_bind, Program.ends_get]
  simp only
  split_ifs with hfew
  · exact ⟨⟨rfl, rfl, rfl, rfl, rfl, rfl, rfl, rfl⟩, rfl, Or.inl rfl⟩
  all_goals exact ⟨⟨rfl, rfl, rfl, rfl, rfl, rfl, rfl, rfl⟩, rfl, Or.inr ⟨_, not_lt.1 hfew, rfl⟩⟩

theorem ends_evaluateSourceRules :
    Program.Ends (evaluateSourceRules config input)
      (fun present s' => SameLatch s s' ∧ s'.reports = s.reports ∧ s'.evaluated = s.evaluated ∧
        (config.checksSourceRules = false → present = true))
      (fun _ s' => s' = s) s := by
  unfold evaluateSourceRules setMonitor
  cases hchecks : config.checksSourceRules with
  | false => exact ⟨.rfl', rfl, rfl, fun _ => rfl⟩
  | true =>
    rw [Bool.not_true, if_neg Bool.false_ne_true]
    cases input.sourceRules with
    | raised => rfl
    | unknown => exact ⟨.rfl', rfl, rfl, nofun⟩
    | present =>
      rw [Program.ends_bind, Program.ends_get]
      cases hpresent : s.monitor.sourceRulesPresent with
      | true => exact ⟨.rfl', rfl, rfl, nofun⟩
      | false => exact ⟨⟨rfl, rfl, rfl, rfl, rfl, rfl, rfl, rfl⟩, rfl, rfl, nofun⟩
    | missing =>
      rw [Program.ends_bind, Program.ends_get]
      cases hpresent : s.monitor.sourceRulesPresent with
      | true => exact ⟨⟨rfl, rfl, rfl, rfl, rfl, rfl, rfl, rfl⟩, rfl, rfl, nofun⟩
      | false => exact ⟨.rfl', rfl, rfl, nofun⟩

def checkTail (config : MonitorConfig) (input : CheckInput) (ok : Bool) : HealthM Unit := do
  evaluateDegraded input ok
  let rulesPresent ← evaluateSourceRules config input
  modify fun s => { s with
    reports := s.reports ++ [(snapshotOf ok rulesPresent s.monitor, s.lastSucceeded)] }

theorem ends_checkTail : Program.Ends (checkTail config input ok) (fun _ s' => CheckTail config s s')
    (fun _ s' => CheckTail config s s') s := by
  unfold checkTail
  rw [Program.ends_bind]
  refine ends_evaluateDegraded.mono ?_ fun _ _ h => h.elim
  rintro - s₁ ⟨hlatch, hreports, hevaluated⟩
  rw [Program.ends_bind]
  refine ends_evaluateSourceRules.mono ?_ ?_
  · rintro present s₂ ⟨hlatch', hreports', hevaluated', hpresent⟩
    have hall := hlatch.trans hlatch'
    refine ⟨⟨hall.checks, hall.failSince, hall.successSince, hall.healthy, hall.routesActive,
      hall.crossings, hall.notified, hall.lastSucceeded⟩, ?_, Or.inr
        ⟨snapshotOf ok present s₂.monitor, fun hnone => ?_, ?_⟩⟩
    · show s₂.evaluated = s.evaluated ∨ ∃ n, DEGRADED_MIN_SAMPLES ≤ n ∧ s₂.evaluated = s.evaluated ++ [n]
      rw [hevaluated']
      exact hevaluated
    · show (s₂.monitor.routesActive && present) = s.monitor.routesActive
      rw [hpresent hnone, Bool.and_true]
      exact hall.routesActive
    · show s₂.reports ++ [(snapshotOf ok present s₂.monitor, s₂.lastSucceeded)] = _
      rw [hreports', hreports, hall.lastSucceeded]
  · rintro - s₂ rfl
    exact ⟨hlatch, hevaluated, Or.inl hreports⟩

/-! ### Crossings -/

/-- The latch after a crossing. -/
def Crossing.healthy : Crossing → Bool
  | .down => false
  | .recovered => true

/-- The route operation of a crossing. -/
def Crossing.op : Crossing → RouteOp
  | .down => .deactivate
  | .recovered => .activate

def Crossing.other : Crossing → Crossing
  | .down => .recovered
  | .recovered => .down

/-- The crossing that the latch can make next. -/
def nextCrossing (healthy : Bool) : Crossing := if healthy then .down else .recovered

def CallsRoutes (config : MonitorConfig) (input : CheckInput) (c : Crossing) : Prop :=
  config.observerMode = false ∧ (c = .down → input.killSwitch = false)

/-- What a crossing does to the routes and to the notifications. -/
inductive RouteEffect (config : MonitorConfig) (input : CheckInput) (c : Crossing) (s s' : HealthSystem) :
    Prop
  | kept (call : ¬ CallsRoutes config input c) (flag : s'.monitor.routesActive = s.monitor.routesActive)
      (routes : s'.lastSucceeded = s.lastSucceeded) (notified : s'.notified = s.notified ++ [c])
  | ok (call : CallsRoutes config input c) (outcome : input.route = .ok)
      (flag : s'.monitor.routesActive = c.healthy) (routes : s'.lastSucceeded = c.op)
      (notified : s'.notified = s.notified ++ [c])
  | failed (call : CallsRoutes config input c) (outcome : input.route = .failed)
      (flag : s'.monitor.routesActive = c.healthy) (routes : s'.lastSucceeded = s.lastSucceeded)
      (notified : s'.notified = s.notified ++ [c])
  | raised (call : CallsRoutes config input c) (outcome : input.route = .raised)
      (flag : s'.monitor.routesActive = s.monitor.routesActive)
      (routes : s'.lastSucceeded = s.lastSucceeded) (notified : s'.notified = s.notified)

structure Crossed (config : MonitorConfig) (input : CheckInput) (c : Crossing) (s s' : HealthSystem) :
    Prop where
  checks : s'.checks = s.checks
  failSince : s'.monitor.failSince = s.monitor.failSince
  successSince : s'.monitor.successSince = s.monitor.successSince
  healthy : s'.monitor.healthy = c.healthy
  crossings : s'.crossings = s.crossings ++ [c]
  evaluated : s'.evaluated = s.evaluated
  reports : s'.reports = s.reports
  effect : RouteEffect config input c s s'

theorem ends_markRecovered : Program.Ends (markRecovered config input)
    (fun _ s' => Crossed config input .recovered s s')
    (fun _ s' => Crossed config input .recovered s s') s := by
  unfold markRecovered callRoutes setMonitor notify
  cases hmode : config.observerMode with
  | true =>
    exact ⟨rfl, rfl, rfl, rfl, rfl, rfl, rfl, .kept (fun h => nomatch hmode.symm.trans h.1) rfl rfl rfl⟩
  | false =>
    have hcall : CallsRoutes config input .recovered := ⟨hmode, nofun⟩
    cases hroute : input.route with
    | ok => exact ⟨rfl, rfl, rfl, rfl, rfl, rfl, rfl, .ok hcall hroute rfl rfl rfl⟩
    | failed => exact ⟨rfl, rfl, rfl, rfl, rfl, rfl, rfl, .failed hcall hroute rfl rfl rfl⟩
    | raised => exact ⟨rfl, rfl, rfl, rfl, rfl, rfl, rfl, .raised hcall hroute rfl rfl rfl⟩

theorem ends_markDown : Program.Ends (markDown config input)
    (fun _ s' => Crossed config input .down s s') (fun _ s' => Crossed config input .down s s') s := by
  unfold markDown callRoutes setMonitor notify
  cases hmode : config.observerMode with
  | true =>
    exact ⟨rfl, rfl, rfl, rfl, rfl, rfl, rfl, .kept (fun h => nomatch hmode.symm.trans h.1) rfl rfl rfl⟩
  | false =>
    cases hswitch : input.killSwitch with
    | true =>
      exact ⟨rfl, rfl, rfl, rfl, rfl, rfl, rfl,
        .kept (fun h => nomatch hswitch.symm.trans (h.2 rfl)) rfl rfl rfl⟩
    | false =>
      have hcall : CallsRoutes config input .down := ⟨hmode, fun _ => hswitch⟩
      cases hroute : input.route with
      | ok => exact ⟨rfl, rfl, rfl, rfl, rfl, rfl, rfl, .ok hcall hroute rfl rfl rfl⟩
      | failed => exact ⟨rfl, rfl, rfl, rfl, rfl, rfl, rfl, .failed hcall hroute rfl rfl rfl⟩
      | raised => exact ⟨rfl, rfl, rfl, rfl, rfl, rfl, rfl, .raised hcall hroute rfl rfl rfl⟩

/-- The window after which the latch makes a crossing. -/
def windowOf (config : MonitorConfig) : Crossing → ℤ
  | .down => config.failWindow
  | .recovered => config.recoverWindow

/-- The monitor after the answer of the probe, before the latch is looked at. -/
def marked (input : CheckInput) (ok : Bool) (s : HealthSystem) : HealthSystem :=
  { s with
    checks := (input.now, ok) :: s.checks
    monitor :=
      if ok then
        { s.monitor with
          lastOk := some true, successStreak := s.monitor.successStreak + 1, failStreak := 0
          failSince := none, successSince := some (s.monitor.successSince.getD input.now) }
      else
        { s.monitor with
          lastOk := some false, failStreak := s.monitor.failStreak + 1, successStreak := 0
          successSince := none, failSince := some (s.monitor.failSince.getD input.now) } }

/-- The mark at which the current run of checks began. -/
def sinceOf (s : HealthSystem) (ok : Bool) : Option ℤ :=
  if ok then s.monitor.successSince else s.monitor.failSince

/-- The next crossing is due: the answer is of its kind, and its window has passed. -/
def Due (config : MonitorConfig) (input : CheckInput) (ok : Bool) (s : HealthSystem) (c : Crossing) :
    Prop :=
  ok = c.healthy ∧ windowOf config c ≤ input.now - (sinceOf s ok).getD input.now

/-- What an answer does to the latch: nothing but the marks, or the next crossing when it is due. -/
inductive LatchStep (config : MonitorConfig) (input : CheckInput) (ok : Bool) (s s' : HealthSystem) : Prop
  | stays (early : ¬ Due config input ok s (nextCrossing s.monitor.healthy)) (same : SameLatch (marked input ok s) s') (reports : s'.reports = s.reports)
      (evaluated : s'.evaluated = s.evaluated)
  | crosses (c : Crossing) (next : c = nextCrossing s.monitor.healthy) (due : Due config input ok s c)
      (crossed : Crossed config input c (marked input ok s) s')

theorem ends_checkLatch :
    Program.Ends
      (do
        modify fun s => { s with checks := (input.now, ok) :: s.checks }
        checkLatch config input ok)
      (fun _ s' => LatchStep config input ok s s') (fun _ s' => LatchStep config input ok s s') s := by
  rw [Program.ends_bind, Program.ends_modify]
  unfold checkLatch
  cases ok with
  | true =>
    rw [if_pos rfl, checkGood, setMonitor, Program.ends_bind, Program.ends_modify, Program.ends_bind,
      Program.ends_get]
    split_ifs with hcross
    · obtain ⟨hdown, hwindow⟩ := (Bool.and_eq_true _ _).mp hcross
      have hnext : Crossing.recovered = nextCrossing s.monitor.healthy := by
        rw [show s.monitor.healthy = false from Bool.not_eq_true' _ |>.mp hdown]
        rfl
      have hdue : Due config input true s .recovered := ⟨rfl, of_decide_eq_true hwindow⟩
      exact ends_markRecovered.mono (fun _ _ h => .crosses .recovered hnext hdue h)
        fun _ _ h => .crosses .recovered hnext hdue h
    · refine .stays (fun hdue => hcross ?_) .rfl' rfl rfl
      cases hhealthy : s.monitor.healthy with
      | true =>
        rw [hhealthy] at hdue
        cases hdue.1
      | false =>
        rw [hhealthy] at hdue
        exact (Bool.and_eq_true _ _).mpr ⟨rfl, decide_eq_true hdue.2⟩
  | false =>
    rw [if_neg Bool.false_ne_true, checkBad, setMonitor, Program.ends_bind, Program.ends_modify,
      Program.ends_bind, Program.ends_get]
    split_ifs with hcross
    · obtain ⟨hup, hwindow⟩ := (Bool.and_eq_true _ _).mp hcross
      have hnext : Crossing.down = nextCrossing s.monitor.healthy := by
        rw [show s.monitor.healthy = true from hup]
        rfl
      have hdue : Due config input false s .down := ⟨rfl, of_decide_eq_true hwindow⟩
      exact ends_markDown.mono (fun _ _ h => .crosses .down hnext hdue h)
        fun _ _ h => .crosses .down hnext hdue h
    · refine .stays (fun hdue => hcross ?_) .rfl' rfl rfl
      cases hhealthy : s.monitor.healthy with
      | true =>
        rw [hhealthy] at hdue
        exact (Bool.and_eq_true _ _).mpr ⟨rfl, decide_eq_true hdue.2⟩
      | false =>
        rw [hhealthy] at hdue
        cases hdue.1

/-- What a check leaves: nothing without an answer; else what the latch does, and the end of the check
unless a callback has raised before it. -/
inductive CheckEnd (config : MonitorConfig) (input : CheckInput) (s s' : HealthSystem) : Prop
  | unanswered (probe : input.probe = none) (same : s' = s)
  | answered (ok : Bool) (s₁ : HealthSystem) (probe : input.probe = some ok)
      (latch : LatchStep config input ok s s₁) (tail : CheckTail config s₁ s')

theorem CheckTail.rfl' : CheckTail config s s := ⟨.rfl', Or.inl rfl, Or.inl rfl⟩

/-- **One check.** -/
theorem ends_checkOnce : Program.Ends (checkOnce config input) (fun _ s' => CheckEnd config input s s')
    (fun _ s' => CheckEnd config input s s') s := by
  unfold checkOnce
  cases hprobe : input.probe with
  | none => exact .unanswered hprobe rfl
  | some ok =>
    show Program.Ends (do
      modify fun s => { s with checks := (input.now, ok) :: s.checks }
      checkLatch config input ok
      checkTail config input ok) _ _ s
    have hlatch : Program.Ends
        (do
          modify fun s => { s with checks := (input.now, ok) :: s.checks }
          checkLatch config input ok)
        (fun _ s' => LatchStep config input ok s s') (fun _ s' => LatchStep config input ok s s') s :=
      ends_checkLatch
    rw [Program.ends_bind] at hlatch ⊢
    refine hlatch.mono (fun _ s₀ h => ?_) fun _ s₁ h => .answered ok s₁ hprobe h .rfl'
    rw [Program.ends_bind]
    refine h.mono (fun _ s₁ h₁ => ?_) fun _ s₁ h₁ => .answered ok s₁ hprobe h₁ .rfl'
    exact ends_checkTail.mono (fun _ s' h₂ => .answered ok s₁ hprobe h₁ h₂)
      fun _ s' h₂ => .answered ok s₁ hprobe h₁ h₂

theorem checkEnd_of_step (h : step config s input = some s') : CheckEnd config input s s' := by
  cases h
  exact Program.Ends.result (R := fun _ s' => CheckEnd config input s s') ends_checkOnce

/-! ### Unbroken runs of checks -/

/-- The last checks all gave the answer, and the first of them read the clock at `t`. -/
def RunSince (ok : Bool) (t : ℤ) (checks : List (ℤ × Bool)) : Prop :=
  ∃ run rest, checks = run ++ rest ∧ (∀ c ∈ run, c.2 = ok) ∧ run.getLast? = some (t, ok)

/-- The last checks all gave the answer, and between the first and the last of them lies the window. -/
def Spans (ok : Bool) (window : ℤ) (checks : List (ℤ × Bool)) : Prop :=
  ∃ run rest first last, checks = run ++ rest ∧ (∀ c ∈ run, c.2 = ok) ∧
    run.getLast? = some first ∧ run.head? = some last ∧ window ≤ last.1 - first.1

theorem RunSince.cons (h : RunSince ok t checks) : RunSince ok t ((now, ok) :: checks) := by
  obtain ⟨run, rest, rfl, hrun, hlast⟩ := h
  refine ⟨(now, ok) :: run, rest, rfl, List.forall_mem_cons.2 ⟨rfl, hrun⟩, ?_⟩
  cases run with
  | nil => cases hlast
  | cons c run =>
    rw [List.getLast?_cons_cons]
    exact hlast

theorem RunSince.singleton : RunSince ok now ((now, ok) :: checks) :=
  ⟨[(now, ok)], checks, rfl, List.forall_mem_singleton.2 rfl, rfl⟩

theorem RunSince.spans {window : ℤ} (h : RunSince ok t ((now, ok) :: checks))
    (hwindow : window ≤ now - t) : Spans ok window ((now, ok) :: checks) := by
  obtain ⟨run, rest, heq, hrun, hlast⟩ := h
  cases run with
  | nil => cases hlast
  | cons c run =>
    obtain rfl : (now, ok) = c := (List.cons.inj heq).1
    exact ⟨_, rest, _, _, heq, hrun, hlast, rfl, hwindow⟩

theorem runSince_marked {answer : Bool}
    (hmark : ∀ t, sinceOf s answer = some t → RunSince answer t s.checks)
    (h : sinceOf (marked input ok s) answer = some t) :
    RunSince answer t (marked input ok s).checks := by
  have hsame : ∀ m : Option ℤ, m = sinceOf s ok → some (m.getD input.now) = some t → answer = ok →
      RunSince answer t ((input.now, ok) :: s.checks) := by
    rintro m hm ht rfl
    cases m with
    | none =>
      obtain rfl := Option.some.inj ht
      exact .singleton
    | some t' =>
      obtain rfl := Option.some.inj ht
      exact (hmark _ hm.symm).cons
  cases ok <;> cases answer
  · exact hsame _ rfl h rfl
  · cases h
  · cases h
  · exact hsame _ rfl h rfl

/-! ### The invariant -/

/-- The crossings alternate, and the first one is `c`. -/
def Alternates : Crossing → List Crossing → Prop
  | _, [] => True
  | c, d :: crossings => d = c ∧ Alternates c.other crossings

theorem Alternates.append_other {first c : Crossing} {crossings : List Crossing}
    (h : Alternates first (crossings ++ [c])) : Alternates first (crossings ++ [c] ++ [c.other]) := by
  induction crossings generalizing first with
  | nil =>
    obtain ⟨rfl, -⟩ := h
    exact ⟨rfl, rfl, trivial⟩
  | cons d crossings ih => exact ⟨h.1, ih h.2⟩

theorem Alternates.of_append {first : Crossing} {crossings rest : List Crossing}
    (h : Alternates first (crossings ++ rest)) : Alternates first crossings := by
  induction crossings generalizing first with
  | nil => trivial
  | cons d crossings ih => exact ⟨h.1, ih h.2⟩

theorem nextCrossing_healthy (c : Crossing) : nextCrossing c.healthy = c.other := by
  cases c <;> rfl

/-- What every run keeps. -/
structure LatchInv (active : Bool) (s : HealthSystem) : Prop where
  since : ∀ ok t, sinceOf s ok = some t → RunSince ok t s.checks
  alternates : Alternates (nextCrossing active) (s.crossings ++ [nextCrossing s.monitor.healthy])
  evaluated : ∀ n ∈ s.evaluated, DEGRADED_MIN_SAMPLES ≤ n

theorem latchInv_start (active : Bool) : LatchInv active (start active) := by
  refine ⟨fun ok t h => ?_, ⟨rfl, trivial⟩, nofun⟩
  cases ok <;> cases h

theorem sinceOf_congr (hfail : s'.monitor.failSince = s.monitor.failSince)
    (hsuccess : s'.monitor.successSince = s.monitor.successSince) (ok : Bool) :
    sinceOf s' ok = sinceOf s ok := by
  unfold sinceOf
  rw [hfail, hsuccess]

theorem healthy_marked : (marked input ok s).monitor.healthy = s.monitor.healthy := by
  cases ok <;> rfl

/-- What an answer does keeps the invariant. -/
theorem LatchInv.latchStep (h : LatchInv active s) (hstep : LatchStep config input ok s s') :
    LatchInv active s' := by
  have hmarked : ∀ answer t, sinceOf (marked input ok s) answer = some t →
      RunSince answer t (marked input ok s).checks := fun answer _ => runSince_marked (h.since answer)
  cases hstep with
  | stays _ hsame _ hevaluated =>
    refine ⟨fun answer t ht => ?_, ?_, ?_⟩
    · rw [sinceOf_congr hsame.failSince hsame.successSince] at ht
      rw [hsame.checks]
      exact hmarked answer t ht
    · rw [hsame.healthy, healthy_marked, hsame.crossings]
      exact h.alternates
    · rw [hevaluated]
      exact h.evaluated
  | crosses c hnext _ hcrossed =>
    refine ⟨fun answer t ht => ?_, ?_, ?_⟩
    · rw [sinceOf_congr hcrossed.failSince hcrossed.successSince] at ht
      rw [hcrossed.checks]
      exact hmarked answer t ht
    · rw [hcrossed.healthy, nextCrossing_healthy, hcrossed.crossings]
      have halternates := h.alternates
      rw [← hnext] at halternates
      exact halternates.append_other
    · rw [hcrossed.evaluated]
      exact h.evaluated

theorem LatchInv.checkTail (h : LatchInv active s) (htail : CheckTail config s s') :
    LatchInv active s' := by
  refine ⟨fun ok t ht => ?_, ?_, fun n hn => ?_⟩
  · rw [sinceOf_congr htail.latch.failSince htail.latch.successSince] at ht
    rw [htail.latch.checks]
    exact h.since ok t ht
  · rw [htail.latch.healthy, htail.latch.crossings]
    exact h.alternates
  · rcases htail.evaluated with heq | ⟨k, hk, heq⟩
    · exact h.evaluated n (heq ▸ hn)
    · rw [heq] at hn
      rcases List.mem_append.1 hn with hn | hn
      · exact h.evaluated n hn
      · rw [List.mem_singleton.1 hn]
        exact hk

theorem LatchInv.step (h : LatchInv active s) (hstep : step config s input = some s') :
    LatchInv active s' := by
  cases checkEnd_of_step hstep with
  | unanswered _ hsame => exact hsame ▸ h
  | answered ok s₁ _ hlatch htail => exact (h.latchStep hlatch).checkTail htail

theorem latchInv_of_run (hrun : runFrom (Health.step config) (start active) inputs = some s) :
    LatchInv active s :=
  invariant_of_allowed (fun _ _ _ hinv _ hstep => LatchInv.step hinv hstep) (latchInv_start active)
    (allowed_of_forall (fun _ _ _ => trivial) _) hrun

/-! ### The crossings of a run -/

/-- What the next check may do: nothing to the latch, or the one crossing that its state allows, after an
unbroken run of checks of its kind that spans the window. -/
inductive NextCrossing (config : MonitorConfig) (s s' : HealthSystem) : Prop
  | stays (crossings : s'.crossings = s.crossings)
  | down (healthy : s.monitor.healthy = true) (crossings : s'.crossings = s.crossings ++ [.down])
      (spans : Spans false config.failWindow s'.checks)
  | recovered (healthy : s.monitor.healthy = false)
      (crossings : s'.crossings = s.crossings ++ [.recovered])
      (spans : Spans true config.recoverWindow s'.checks)

theorem spans_of_crosses {c : Crossing} (h : LatchInv active s)
    (hwindow : windowOf config c ≤ input.now - (sinceOf s ok).getD input.now) :
    Spans ok (windowOf config c) (marked input ok s).checks := by
  have hsince : sinceOf (marked input ok s) ok = some ((sinceOf s ok).getD input.now) := by
    cases ok <;> rfl
  exact (runSince_marked (h.since ok) hsince).spans hwindow

theorem LatchInv.nextCrossing (h : LatchInv active s) (hstep : Health.step config s input = some s') :
    NextCrossing config s s' := by
  cases checkEnd_of_step hstep with
  | unanswered _ hsame => exact .stays (by rw [hsame])
  | answered ok s₁ _ hlatch htail =>
    have htailCrossings := htail.latch.crossings
    have htailChecks := htail.latch.checks
    cases hlatch with
    | stays _ hsame => exact .stays (htailCrossings.trans hsame.crossings)
    | crosses c hnext hdue hcrossed =>
      obtain ⟨hanswer, hwindow⟩ := hdue
      have hspans := spans_of_crosses h hwindow
      rw [← hcrossed.checks, ← htailChecks] at hspans
      have hcrossings := htailCrossings.trans hcrossed.crossings
      subst hanswer
      cases hhealthy : s.monitor.healthy with
      | true =>
        rw [hhealthy] at hnext
        obtain rfl : c = .down := hnext
        exact .down hhealthy hcrossings hspans
      | false =>
        rw [hhealthy] at hnext
        obtain rfl : c = .recovered := hnext
        exact .recovered hhealthy hcrossings hspans

/-- What the latch has done in a run, and what its next check may do. -/
structure Latches (config : MonitorConfig) (active : Bool) (s : HealthSystem) : Prop where
  alternates : Alternates (nextCrossing active) s.crossings
  next : ∀ input s', Health.step config s input = some s' → NextCrossing config s s'
  evaluated : ∀ n ∈ s.evaluated, DEGRADED_MIN_SAMPLES ≤ n

/-- Every crossing has been notified. -/
def AllNotified (s : HealthSystem) : Prop := s.notified = s.crossings

theorem AllNotified.step (h : AllNotified s) (hroute : input.route ≠ .raised)
    (hstep : Health.step config s input = some s') : AllNotified s' := by
  unfold AllNotified at h ⊢
  cases checkEnd_of_step hstep with
  | unanswered _ hsame => exact hsame ▸ h
  | answered ok s₁ _ hlatch htail =>
    rw [htail.latch.notified, htail.latch.crossings]
    cases hlatch with
    | stays _ hsame =>
      rw [hsame.notified, hsame.crossings]
      exact h
    | crosses c _ _ hcrossed =>
      have hnotified : s₁.notified = s.notified ++ [c] := by
        cases hcrossed.effect with
        | kept _ _ _ hnotified => exact hnotified
        | ok _ _ _ _ hnotified => exact hnotified
        | failed _ _ _ _ hnotified => exact hnotified
        | raised _ houtcome => exact absurd houtcome hroute
      rw [hnotified, hcrossed.crossings, h]
      rfl

/-- **The latch of the monitor**, for all answers of the probes, all readings of the clock and all ends of
the callbacks; each crossing is notified unless a call of the routes helper raises. -/
theorem latch_of_run (hrun : runFrom (Health.step config) (start active) inputs = some s) :
    Latches config active s ∧
      ((∀ input ∈ inputs, input.route ≠ .raised) → s.notified = s.crossings) := by
  have hinv := latchInv_of_run hrun
  refine ⟨⟨hinv.alternates.of_append, fun _ _ => hinv.nextCrossing, hinv.evaluated⟩, fun hroutes => ?_⟩
  have hallowed : Allowed (Health.step config) (fun _ input => input.route ≠ .raised) (start active) inputs :=
    allowed_of_forall (fun input hinput _ => hroutes input hinput) _
  have hstart : AllNotified (start active) := rfl
  have hall : AllNotified s :=
    invariant_of_allowed (fun _ _ _ h hroute hstep => h.step hroute hstep) hstart hallowed hrun
  exact hall

/-- The monitor with the default windows. -/
def legacyConfig : MonitorConfig := legacy 60 60

/-- An unbroken minute of answers, for a monitor that begins with inactive routes. -/
def goodMinute : List CheckInput :=
  [⟨0, some true, false, .ok, .unknown⟩, ⟨60, some true, false, .ok, .unknown⟩]

theorem latch_of_run_goodMinute : ∃ s, runFrom (Health.step legacyConfig) (start false) goodMinute = some s ∧
    Latches legacyConfig false s ∧ s.notified = s.crossings := by
  have hrun : runFrom (Health.step legacyConfig) (start false) goodMinute = some _ := rfl
  have hlatch := latch_of_run hrun
  exact ⟨_, hrun, hlatch.1, hlatch.2 (by decide)⟩

/-- The first notification of a monitor that begins with inactive routes is that of a recovery. -/
theorem recovered_first : ¬ ∀ (config : MonitorConfig) (active : Bool) (inputs : List CheckInput)
    (s : HealthSystem), runFrom (Health.step config) (start active) inputs = some s →
    (∀ input ∈ inputs, input.route = .ok) → Alternates .down s.notified := by
  intro h
  have hfirst := h legacyConfig false goodMinute _ rfl (by decide)
  exact nomatch hfirst.1

end VpnBot.Warp.Health
