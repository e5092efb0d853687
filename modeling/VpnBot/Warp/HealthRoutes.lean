import VpnBot.Warp.HealthLatch

/-!
# The routes that the health monitor reports

The monitor sets its flag after every call of the routes helper that returns, and the manager only logs a
result that is not ok.  So the flag agrees with the last operation that took effect as long as no call that
would change it fails (`SettlesRoutes`), and no longer (`routesAgree_iff`).
-/

namespace VpnBot.Warp.Health

open Sys

variable {config : MonitorConfig} {input : CheckInput} {s s₁ s' : HealthSystem} {ok : Bool}

/-- The operation that leaves the routes so. -/
def opFor (active : Bool) : RouteOp := if active then .activate else .deactivate

/-- The flag, and every snapshot that was reported, agrees with the last operation that took effect. -/
structure RoutesAgree (s : HealthSystem) : Prop where
  flag : s.lastSucceeded = opFor s.monitor.routesActive
  reports : ∀ report ∈ s.reports, report.2 = opFor report.1.routesActive

/-- The check makes a crossing and calls the routes helper. -/
def MakesCall (config : MonitorConfig) (s : HealthSystem) (input : CheckInput) (c : Crossing) : Prop :=
  c = nextCrossing s.monitor.healthy ∧
    (∃ ok, input.probe = some ok ∧ Due config input ok s c) ∧ CallsRoutes config input c

/-- No call for an operation that would change the flag returns a failure. -/
def SettlesRoutes (config : MonitorConfig) (s : HealthSystem) (input : CheckInput) : Prop :=
  ∀ c, MakesCall config s input c → s.monitor.routesActive ≠ c.healthy → input.route ≠ .failed

theorem op_eq_opFor (c : Crossing) : c.op = opFor c.healthy := by cases c <;> rfl

theorem opFor_injective : Function.Injective opFor := by
  intro a b h
  cases a <;> cases b <;> first | rfl | cases h

theorem routesAgree_start (active : Bool) : RoutesAgree (start active) := ⟨rfl, nofun⟩

theorem routesActive_marked : (marked input ok s).monitor.routesActive = s.monitor.routesActive := by
  cases ok <;> rfl

theorem flag_of_latchStep (h : RoutesAgree s) (hprobe : input.probe = some ok)
    (hstep : LatchStep config input ok s s') :
    s'.lastSucceeded = opFor s'.monitor.routesActive ↔ SettlesRoutes config s input := by
  cases hstep with
  | stays hearly hsame =>
    rw [hsame.lastSucceeded, hsame.routesActive, routesActive_marked]
    refine iff_of_true h.flag fun c hcall => ?_
    obtain ⟨rfl, ⟨ok', hprobe', hdue⟩, -⟩ := hcall
    obtain rfl := Option.some.inj (hprobe.symm.trans hprobe')
    exact absurd hdue hearly
  | crosses c hnext hdue hcrossed =>
    have hsettled : input.route ≠ .failed → SettlesRoutes config s input := fun hroute _ _ _ => hroute
    cases hcrossed.effect with
    | kept hno hflag hroutes =>
      rw [hroutes, hflag, routesActive_marked]
      refine iff_of_true h.flag fun c' hcall => ?_
      obtain rfl := hcall.1.trans hnext.symm
      exact absurd hcall.2.2 hno
    | ok _ houtcome hflag hroutes =>
      rw [hroutes, hflag]
      exact iff_of_true (op_eq_opFor c) (hsettled (by rw [houtcome]; nofun))
    | raised _ houtcome hflag hroutes =>
      rw [hroutes, hflag, routesActive_marked]
      exact iff_of_true h.flag (hsettled (by rw [houtcome]; nofun))
    | failed hcall houtcome hflag hroutes =>
      rw [hroutes, hflag]
      have hold : (marked input ok s).lastSucceeded = opFor s.monitor.routesActive := h.flag
      rw [hold, opFor_injective.eq_iff]
      constructor
      · rintro hsame c' ⟨hc, -⟩ hchanges
        obtain rfl := hc.trans hnext.symm
        exact absurd hsame hchanges
      · intro hsettles
        by_contra hchanges
        exact hsettles c ⟨hnext, ⟨ok, hprobe, hdue⟩, hcall⟩ hchanges houtcome

theorem routesAgree_step (hchecker : config.checksSourceRules = false) (h : RoutesAgree s)
    (hstep : Health.step config s input = some s') :
    RoutesAgree s' ↔ SettlesRoutes config s input := by
  cases checkEnd_of_step hstep with
  | unanswered hprobe hsame =>
    rw [hsame]
    refine iff_of_true h fun c hcall => ?_
    obtain ⟨-, ⟨ok, hanswer, -⟩, -⟩ := hcall
    exact nomatch hprobe.symm.trans hanswer
  | answered ok s₁ hprobe hlatch htail =>
    have hflag := flag_of_latchStep h hprobe hlatch
    have hreports₁ : s₁.reports = s.reports := by
      cases hlatch with
      | stays _ _ hreports => exact hreports
      | crosses c _ _ hcrossed => exact hcrossed.reports
    rw [← htail.latch.lastSucceeded, ← htail.latch.routesActive] at hflag
    refine ⟨fun h' => hflag.1 h'.flag, fun hsettles => ⟨hflag.2 hsettles, ?_⟩⟩
    -- the snapshot of this check has the flag that the latch has left
    rcases htail.reports with hsame | ⟨snapshot, hactive, hnew⟩
    · rw [hsame, hreports₁]
      exact h.reports
    · rw [hnew, hreports₁]
      intro report hreport
      rcases List.mem_append.1 hreport with hold | hnewest
      · exact h.reports report hold
      · obtain rfl := List.mem_singleton.1 hnewest
        show s₁.lastSucceeded = opFor snapshot.routesActive
        rw [hactive hchecker, ← htail.latch.routesActive, ← htail.latch.lastSucceeded]
        exact hflag.2 hsettles

/-- **The reported routes agree with the last operation that took effect, in every state of a run and in
every snapshot of it, exactly when no call of the run fails that would change them.** -/
theorem routesAgree_iff (failWindow recoverWindow : ℤ) (active : Bool) (inputs : List CheckInput) :
    (∀ pre s, pre <+: inputs →
      runFrom (Health.step (legacy failWindow recoverWindow)) (start active) pre = some s →
      RoutesAgree s) ↔
    Allowed (Health.step (legacy failWindow recoverWindow))
      (SettlesRoutes (legacy failWindow recoverWindow)) (start active) inputs :=
  forall_reached_iff_allowed (fun _ _ => rfl) (fun _ _ _ => routesAgree_step rfl)
    (routesAgree_start active) inputs

/-- A minute without an answer, at whose end the routes helper fails. -/
def badMinute : List CheckInput :=
  [⟨0, some false, false, .ok, .unknown⟩, ⟨60, some false, false, .failed, .unknown⟩]

/-- The removal of the routes fails, and the monitor reports them inactive. -/
theorem not_routesAgree_badMinute : ¬ ∀ (failWindow recoverWindow : ℤ) (active : Bool)
    (inputs : List CheckInput) (s : HealthSystem),
    runFrom (Health.step (legacy failWindow recoverWindow)) (start active) inputs = some s →
    RoutesAgree s := by
  intro h
  have hagree := h 60 60 true badMinute _ rfl
  exact nomatch hagree.flag

end VpnBot.Warp.Health
