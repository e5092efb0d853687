import Mathlib.Algebra.Order.Ring.Rat
import VpnBot.Relays.Health

/-!
# The messages about a relay

What a step does for one relay (`Line.next`), and from it the messages of a run: within a period in which
the relay is enabled they alternate, and each is the end of an unbroken stretch.  The line of a relay is
replayed from its own inputs, so nothing else has a part in it.
-/

namespace VpnBot.Relays.Health

open Sys

variable {window now : ℚ} {s s' : Supervisor} {m : RelayHealthMonitor} {id : ℕ} {ok : Bool}
  {period : List Check} {past : List (Option Check)}

/-! ### One relay -/

/-- The latch of a relay, and its past. -/
structure Line where
  monitor : Option RelayHealthMonitor
  observed : List (Option Check)

/-- What a pass means for a relay: it is skipped, or it is probed. -/
inductive Input
  | skipped
  | probed (ok : Bool) (now : ℚ)

/-- A pass, for one relay. -/
def Line.next (window : ℚ) (l : Line) : Input → Line
  | .skipped => ⟨none, l.observed ++ [none]⟩
  | .probed ok now =>
    let r := (l.monitor.getD .new).check window window ok now
    ⟨some r.1, l.observed ++ [some ⟨ok, now, r.2⟩]⟩

/-- The line of a relay after some passes. -/
def replay (window : ℚ) (inputs : List Input) : Line := inputs.foldl (Line.next window) ⟨none, []⟩

/-- The line of a relay in a state. -/
def Supervisor.line (s : Supervisor) (id : ℕ) : Line := ⟨s.monitors id, s.observed id⟩

/-- What an action means for a relay, if anything. -/
def input (s : Supervisor) (id : ℕ) : Action → Option Input
  | .load relays => if Supervisor.Enabled relays id then none else some .skipped
  | .probed run now _ =>
    match s.queue with
    | [] => none
    | relay :: _ => if relay.id = id then some (.probed run.ok now) else none
  | .loadRaises | .probeNow .. => none

/-- What the actions of a run mean for a relay. -/
def inputs (window : ℚ) (id : ℕ) : Supervisor → List Action → List Input
  | _, [] => []
  | s, a :: actions =>
    (input s id a).toList ++ ((step window s a).map fun s' => inputs window id s' actions).getD []

/-! ### The steps of a line -/

@[simp] theorem line_recordProbe {relay : Relay} {run : ProbeRun} {checkedAt : Py.Text} :
    (s.recordProbe relay run checkedAt).line id = s.line id := by
  cases run <;> rfl

@[simp] theorem line_broadcast {sent : Option Kind} {relay : Relay} :
    (s.broadcast sent relay).line id = s.line id := by
  cases sent <;> rfl

theorem line_check (s : Supervisor) (window : ℚ) (id relay : ℕ) (row : Relay) (run : ProbeRun) (now : ℚ)
    (checkedAt : Py.Text) :
    (s.check window relay row run now checkedAt).line id =
      if id = relay then (s.line id).next window (.probed run.ok now) else s.line id := by
  unfold Supervisor.check
  rw [line_broadcast]
  by_cases h : id = relay
  · subst h
    rw [if_pos rfl]
    simp only [Supervisor.line, Line.next, set, if_true]
  · rw [if_neg h]
    simp only [Supervisor.line, set, if_neg h]

/-- **A step makes its own input a step of the line.** -/
theorem line_step {a : Action} (h : step window s a = some s') :
    s'.line id = (input s id a).toList.foldl (Line.next window) (s.line id) := by
  cases a with
  | load relays =>
    obtain ⟨_, h⟩ := Option.ite_none_right_eq_some.1 h
    cases h
    by_cases henabled : Supervisor.Enabled relays id
    · simp [input, Supervisor.line, Supervisor.load, henabled]
    · simp [input, Supervisor.line, Supervisor.load, henabled, Line.next]
  | loadRaises =>
    obtain ⟨_, h⟩ := Option.ite_none_right_eq_some.1 h
    cases h
    rfl
  | probed run now checkedAt =>
    unfold step at h
    cases hqueue : s.queue with
    | nil => simp [hqueue] at h
    | cons relay queue =>
      simp only [hqueue, Option.map_eq_some_iff] at h
      obtain ⟨row, _, rfl⟩ := h
      change (s.check window relay.id row run now checkedAt).line id = _
      have hcheck := line_check s window id relay.id row run now checkedAt
      by_cases hid : relay.id = id
      · rw [if_pos hid.symm] at hcheck
        simpa [input, hqueue, hid] using hcheck
      · rw [if_neg (Ne.symm hid)] at hcheck
        simpa [input, hqueue, hid] using hcheck
  | probeNow relay run checkedAt =>
    cases h
    exact line_recordProbe

theorem line_run {actions : List Action} (h : runFrom (step window) s actions = some s') :
    s'.line id = (inputs window id s actions).foldl (Line.next window) (s.line id) := by
  induction actions generalizing s with
  | nil =>
    cases h
    rfl
  | cons a actions ih =>
    obtain ⟨s₁, hstep, hrun⟩ := runFrom_cons.1 h
    rw [ih hrun, line_step hstep]
    simp [inputs, hstep]

/-! ### A stretch of checks -/

/-- The crossing that comes after this one. -/
def Kind.other : Kind → Kind
  | .down => .recovered
  | .recovered => .down

/-- Messages by turns, the first of the given kind. -/
def Alternates : Kind → List Kind → Prop
  | _, [] => True
  | expected, kind :: kinds => kind = expected ∧ Alternates expected.other kinds

/-- The results of the probes that a message follows. -/
def Kind.answer : Kind → Bool
  | .down => false
  | .recovered => true

/-- The checks since the relay has last been skipped. -/
def lastPeriod (past : List (Option Check)) : List Check :=
  past.foldl (fun period entry => entry.elim [] fun check => period ++ [check]) []

@[simp] theorem lastPeriod_skipped : lastPeriod (past ++ [none]) = [] := by simp [lastPeriod]

@[simp] theorem lastPeriod_checked {check : Check} :
    lastPeriod (past ++ [some check]) = lastPeriod past ++ [check] := by simp [lastPeriod]

theorem exists_append_lastPeriod (past : List (Option Check)) :
    ∃ before, past = before ++ (lastPeriod past).map some := by
  induction past using List.reverseRecOn with
  | nil => exact ⟨[], rfl⟩
  | append_singleton past entry ih =>
    cases entry with
    | none => exact ⟨past ++ [none], by simp⟩
    | some check =>
      obtain ⟨before, h⟩ := ih
      refine ⟨before, ?_⟩
      conv_lhs => rw [h]
      simp

theorem lastPeriod_append {before : List (Option Check)} (h : before = [] ∨ before.getLast? = some none) :
    lastPeriod (before ++ period.map some) = period := by
  induction period using List.reverseRecOn with
  | nil =>
    rcases h with rfl | h
    · rfl
    · obtain ⟨before, rfl⟩ := List.getLast?_eq_some_iff.1 h
      simp
  | append_singleton period check ih =>
    rw [List.map_append, List.map_singleton, ← List.append_assoc, lastPeriod_checked, ih]

/-- An unbroken stretch of checks with the given result that ends the period and has begun at `since`. -/
def Stretch (ok : Bool) (since : ℚ) (period : List Check) : Prop :=
  ∃ earlier first later, period = earlier ++ first :: later ∧ first.now = since ∧
    ∀ check ∈ first :: later, check.ok = ok

theorem Stretch.append {since : ℚ} {check : Check} (h : Stretch ok since period) (hok : check.ok = ok) :
    Stretch ok since (period ++ [check]) := by
  obtain ⟨earlier, first, later, rfl, hfirst, hall⟩ := h
  refine ⟨earlier, first, later ++ [check], by simp, hfirst, fun c hc => ?_⟩
  rw [← List.cons_append, List.mem_append, List.mem_singleton] at hc
  rcases hc with hc | rfl
  · exact hall c hc
  · exact hok

theorem stretch_singleton (check : Check) : Stretch check.ok check.now (period ++ [check]) :=
  ⟨period, check, [], rfl, rfl, fun _ hc => by rw [List.mem_singleton.1 hc]⟩

theorem stretch_getD (now : ℚ) {since : Option ℚ} (h : ∀ t, since = some t → Stretch ok t period) (sent : Option Kind) :
    Stretch ok (since.getD now) (period ++ [⟨ok, now, sent⟩]) := by
  cases since with
  | none => exact stretch_singleton ⟨ok, now, sent⟩
  | some t => exact (h t rfl).append rfl

/-! ### The latch -/

/-- The crossing that the latch waits for. -/
def RelayHealthMonitor.expected (m : RelayHealthMonitor) : Kind := if m.healthy then .down else .recovered

/-- The messages of the period take turns, and so do they with those that the latch may send next. -/
def Expects (expected : Kind) (period : List Check) : Prop :=
  ∀ later, Alternates expected later → Alternates .down (period.filterMap Check.sent ++ later)

theorem Expects.stays {expected : Kind} (h : Expects expected period) :
    Expects expected (period ++ [⟨ok, now, none⟩]) := by
  intro later hlater
  simpa using h later hlater

theorem Expects.crosses {kind : Kind} (h : Expects kind period) :
    Expects kind.other (period ++ [⟨ok, now, some kind⟩]) := by
  intro later hlater
  simpa using h (kind :: later) ⟨rfl, hlater⟩

/-- What the latch holds about the period. -/
structure Tracks (m : RelayHealthMonitor) (period : List Check) : Prop where
  expects : Expects m.expected period
  failing : ∀ since, m.failSince = some since → Stretch false since period
  succeeding : ∀ since, m.successSince = some since → Stretch true since period

theorem tracks_new : Tracks .new [] := ⟨fun _ h => h, nofun, nofun⟩

/-- The message of a check ends a stretch at least as long as the window. -/
def Justified (window : ℚ) (period : List Check) (check : Check) : Prop :=
  ∀ kind, check.sent = some kind →
    ∃ since, Stretch kind.answer since (period ++ [check]) ∧ window ≤ check.now - since

/-- **A check of the latch.** -/
theorem Tracks.check (h : Tracks m period) (window : ℚ) (ok : Bool) (now : ℚ) :
    Tracks (m.check window window ok now).1 (period ++ [⟨ok, now, (m.check window window ok now).2⟩]) ∧
      Justified window period ⟨ok, now, (m.check window window ok now).2⟩ := by
  have hexpects := h.expects
  unfold RelayHealthMonitor.expected at hexpects
  unfold RelayHealthMonitor.check
  cases ok with
  | true =>
    have hstretch := stretch_getD now h.succeeding
    simp only [if_true]
    split_ifs with hcross
    · obtain ⟨hdown, hwindow⟩ := Bool.and_eq_true_iff.1 hcross
      rw [Bool.not_eq_true'] at hdown
      rw [hdown] at hexpects
      refine ⟨⟨hexpects.crosses, nofun, ?_⟩, ?_⟩
      · rintro _ ⟨⟩
        exact hstretch _
      · rintro _ ⟨⟩
        exact ⟨_, hstretch _, of_decide_eq_true hwindow⟩
    · refine ⟨⟨hexpects.stays, nofun, ?_⟩, nofun⟩
      rintro _ ⟨⟩
      exact hstretch _
  | false =>
    have hstretch := stretch_getD now h.failing
    simp only [Bool.false_eq_true, if_false]
    split_ifs with hcross
    · obtain ⟨hup, hwindow⟩ := Bool.and_eq_true_iff.1 hcross
      rw [hup] at hexpects
      refine ⟨⟨hexpects.crosses, ?_, nofun⟩, ?_⟩
      · rintro _ ⟨⟩
        exact hstretch _
      · rintro _ ⟨⟩
        exact ⟨_, hstretch _, of_decide_eq_true hwindow⟩
    · refine ⟨⟨hexpects.stays, ?_, nofun⟩, nofun⟩
      rintro _ ⟨⟩
      exact hstretch _

/-! ### The past of a relay -/

/-- What the last entry of a past adds to it. -/
structure Told (window : ℚ) (past : List (Option Check)) : Prop where
  alternates : Alternates .down ((lastPeriod past).filterMap Check.sent)
  justified : ∀ before check, past = before ++ [some check] → Justified window (lastPeriod before) check

/-- The latch follows the last period, and every entry of the past was right when it was made. -/
structure LineInv (window : ℚ) (l : Line) : Prop where
  tracks : Tracks (l.monitor.getD .new) (lastPeriod l.observed)
  told : ∀ past, past <+: l.observed → Told window past

theorem Tracks.alternates (h : Tracks m period) : Alternates .down (period.filterMap Check.sent) := by
  simpa using h.expects [] trivial

theorem LineInv.next {l : Line} (h : LineInv window l) (i : Input) : LineInv window (l.next window i) := by
  cases i with
  | skipped =>
    have htracks : Tracks .new (lastPeriod (l.observed ++ [none])) := by
      rw [lastPeriod_skipped]
      exact tracks_new
    refine ⟨htracks, fun past hpast => ?_⟩
    rcases List.prefix_concat_iff.1 hpast with rfl | hpast
    · refine ⟨htracks.alternates, fun before check heq => ?_⟩
      exact nomatch (List.append_inj' heq rfl).2
    · exact h.told past hpast
  | probed ok now =>
    obtain ⟨htracks, hjustified⟩ := h.tracks.check window ok now
    rw [← lastPeriod_checked] at htracks
    refine ⟨htracks, fun past hpast => ?_⟩
    rcases List.prefix_concat_iff.1 hpast with rfl | hpast
    · refine ⟨htracks.alternates, fun before check heq => ?_⟩
      obtain ⟨rfl, hcheck⟩ := List.append_inj' heq rfl
      cases hcheck
      exact hjustified
    · exact h.told past hpast

theorem lineInv_foldl {l : Line} (h : LineInv window l) (is : List Input) :
    LineInv window (is.foldl (Line.next window) l) := by
  induction is generalizing l with
  | nil => exact h
  | cons i is ih => exact ih (h.next i)

theorem lineInv_start : LineInv window (start.line id) := by
  refine ⟨tracks_new, fun past hpast => ?_⟩
  obtain rfl := List.prefix_nil.1 hpast
  exact ⟨trivial, fun before check heq => by simp at heq⟩

/-- What is promised about the messages in the past of a relay. -/
structure Supervised (window : ℚ) (past : List (Option Check)) : Prop where
  /-- In a period in which the relay is enabled, the messages take turns, from `down` on. -/
  alternates : ∀ before period after, past = before ++ List.map some period ++ after →
    (before = [] ∨ before.getLast? = some none) → Alternates .down (period.filterMap Check.sent)
  /-- A message ends an unbroken stretch of checks, which is at least as long as the window. -/
  stretches : ∀ before check after kind, past = before ++ some check :: after → check.sent = some kind →
    ∃ earlier first later, before ++ [some check] = earlier ++ List.map some (first :: later) ∧
      (∀ c ∈ first :: later, c.ok = kind.answer) ∧ window ≤ check.now - first.now

theorem LineInv.supervised {l : Line} (h : LineInv window l) : Supervised window l.observed where
  alternates before period after heq hbefore := by
    have htold := h.told (before ++ period.map some) ⟨after, heq.symm⟩
    have hperiod : lastPeriod (before ++ period.map some) = period := lastPeriod_append hbefore
    rw [← hperiod]
    exact htold.alternates
  stretches before check after kind heq hsent := by
    have htold := h.told (before ++ [some check]) ⟨after, by rw [heq]; simp⟩
    obtain ⟨since, ⟨earlier, first, later, hperiod, hfirst, hall⟩, hwindow⟩ :=
      htold.justified before check rfl kind hsent
    obtain ⟨sooner, hsooner⟩ := exists_append_lastPeriod (before ++ [some check])
    rw [lastPeriod_checked, hperiod] at hsooner
    refine ⟨sooner ++ earlier.map some, first, later, ?_, hall, hfirst ▸ hwindow⟩
    rw [hsooner, List.map_append, List.append_assoc]

/-! ### The messages -/

/-- The messages about a relay. -/
def messages (s : Supervisor) (id : ℕ) : List Kind :=
  (s.broadcasts.filter fun message => message.2.id = id).map Prod.fst

/-- The rows of the supervisor are under their own ids, and the messages are those of the past. -/
structure MessageInv (s : Supervisor) : Prop where
  rows : ∀ id row, s.current id = some row → row.id = id
  sent : ∀ id, messages s id = (s.observed id).filterMap fun entry => entry.bind Check.sent

theorem messages_broadcast {sent : Option Kind} {relay : Relay} :
    messages (s.broadcast sent relay) id =
      messages s id ++ if relay.id = id then sent.toList else [] := by
  cases sent with
  | none => simp [Supervisor.broadcast]
  | some kind =>
    by_cases hid : relay.id = id
    · simp [messages, Supervisor.broadcast, List.filter_append, hid]
    · simp [messages, Supervisor.broadcast, List.filter_append, hid]

theorem filterMap_sent_singleton (check : Check) :
    List.filterMap (fun entry => entry.bind Check.sent) [some check] = check.sent.toList := by
  cases h : check.sent <;> simp [h]

@[simp] theorem broadcasts_recordProbe {relay : Relay} {run : ProbeRun} {checkedAt : Py.Text} :
    (s.recordProbe relay run checkedAt).broadcasts = s.broadcasts := by
  cases run <;> rfl

@[simp] theorem current_recordProbe {relay : Relay} {run : ProbeRun} {checkedAt : Py.Text} :
    (s.recordProbe relay run checkedAt).current = s.current := by
  cases run <;> rfl

@[simp] theorem current_broadcast {sent : Option Kind} {relay : Relay} :
    (s.broadcast sent relay).current = s.current := by
  cases sent <;> rfl

theorem MessageInv.check (h : MessageInv s) (window : ℚ) {row : Relay} (run : ProbeRun) (now : ℚ)
    (checkedAt : Py.Text) (hrow : row.id = id) : MessageInv (s.check window id row run now checkedAt) := by
  subst hrow
  constructor
  · intro other row' hcurrent
    simp only [Supervisor.check, current_broadcast, current_recordProbe] at hcurrent
    exact h.rows other row' hcurrent
  · intro other
    have hline := line_check s window other row.id row run now checkedAt
    have hobserved := congrArg Line.observed hline
    change (s.check window row.id row run now checkedAt).observed other = _ at hobserved
    rw [hobserved, Supervisor.check, messages_broadcast]
    have hrecord : messages (s.recordProbe row run checkedAt) other = messages s other := by
      rw [messages, broadcasts_recordProbe, messages]
    change messages (s.recordProbe row run checkedAt) other ++ _ = _
    rw [hrecord, h.sent other]
    by_cases hid : row.id = other
    · subst hid
      rw [if_pos rfl, if_pos rfl, Line.next, List.filterMap_append, filterMap_sent_singleton]
      rfl
    · rw [if_neg hid, if_neg (Ne.symm hid), List.append_nil]
      rfl

theorem MessageInv.step {a : Action} (h : MessageInv s) (hstep : step window s a = some s') :
    MessageInv s' := by
  cases a with
  | load relays =>
    obtain ⟨_, hstep⟩ := Option.ite_none_right_eq_some.1 hstep
    cases hstep
    have hrows : ∀ id row, (s.load relays).current id = some row → row.id = id := by
      intro id row hcurrent
      have hfound := List.find?_some (p := fun relay : Relay => decide (relay.id = id)) hcurrent
      exact of_decide_eq_true hfound
    refine ⟨hrows, fun id => ?_⟩
    change messages s id = _
    rw [h.sent id]
    unfold Supervisor.load
    dsimp only
    split_ifs
    · rfl
    · simp
  | loadRaises =>
    obtain ⟨_, hstep⟩ := Option.ite_none_right_eq_some.1 hstep
    cases hstep
    exact h
  | probed run now checkedAt =>
    unfold Health.step at hstep
    cases hqueue : s.queue with
    | nil => simp [hqueue] at hstep
    | cons relay queue =>
      simp only [hqueue, Option.map_eq_some_iff] at hstep
      obtain ⟨row, hcurrent, rfl⟩ := hstep
      have hcheck := h.check window run now checkedAt (h.rows relay.id row hcurrent)
      exact ⟨hcheck.rows, hcheck.sent⟩
  | probeNow relay run checkedAt =>
    cases hstep
    cases run with
    | completed ok => exact ⟨h.rows, h.sent⟩
    | raised => exact h

theorem messageInv_start : MessageInv start where
  rows _ row h := nomatch (show none = some row from h)
  sent _ := rfl

theorem messageInv_run {actions : List Action} (h : runFrom (step window) start actions = some s) :
    MessageInv s :=
  invariant_of_allowed (fun _ _ _ hinv _ hstep => hinv.step hstep) messageInv_start
    (allowed_of_forall (fun _ _ _ => trivial) _) h

/-! ### The result -/

/-- **The messages about the relays**, over every run: those of a relay are the ones in its past, they take
turns and end unbroken stretches, no probe of another relay has a part in them, and a probe by hand changes
no latch. -/
theorem relay_messages_of_run {actions : List Action}
    (hrun : runFrom (step window) start actions = some s) :
    (∀ id, messages s id = (s.observed id).filterMap (fun entry => entry.bind Check.sent) ∧
      Supervised window (s.observed id)) ∧
    (∀ id actions' s', runFrom (step window) start actions' = some s' →
      inputs window id start actions' = inputs window id start actions →
        s'.observed id = s.observed id ∧ messages s' id = messages s id) ∧
    ∀ relay run checkedAt s', step window s (.probeNow relay run checkedAt) = some s' →
      s'.monitors = s.monitors ∧ s'.broadcasts = s.broadcasts ∧ s'.observed = s.observed := by
  have hmessages := messageInv_run hrun
  refine ⟨fun id => ⟨hmessages.sent id, ?_⟩, ?_, ?_⟩
  · have hline : LineInv window ((inputs window id start actions).foldl (Line.next window) (start.line id)) :=
      lineInv_foldl lineInv_start _
    rw [← line_run hrun] at hline
    exact hline.supervised
  · intro id actions' s' hrun' hinputs
    have hline : s'.line id = s.line id := by rw [line_run hrun', line_run hrun, hinputs]
    have hobserved : s'.observed id = s.observed id := congrArg Line.observed hline
    refine ⟨hobserved, ?_⟩
    rw [(messageInv_run hrun').sent id, hmessages.sent id, hobserved]
  · intro relay run checkedAt s' hstep
    cases hstep
    cases run <;> exact ⟨rfl, rfl, rfl⟩

def enabledRelay (id : ℕ) : Relay := ⟨⟨[], [], [], true, true, none⟩, id, []⟩

/-- A pass over two relays, the first of which does not answer. -/
def firstDown (now : ℚ) : List Action :=
  [.load [enabledRelay 1, enabledRelay 2], .probed (.completed false) now [], .probed .raised now []]

/-- Two passes, a minute apart, and a probe by hand between them. -/
def minuteDown : List Action :=
  firstDown 0 ++ .probeNow (enabledRelay 1) (.completed true) [] :: firstDown 60

theorem relay_messages_of_minuteDown : ∃ s, runFrom (step 60) start minuteDown = some s ∧
    messages s 1 = [.down] ∧ Supervised 60 (s.observed 1) := by
  have hmessages : (runFrom (step 60) start minuteDown).map (fun s => messages s 1) = some [.down] := by
    decide +kernel
  obtain ⟨s, hrun, hs⟩ := Option.map_eq_some_iff.1 hmessages
  exact ⟨s, hrun, hs, ((relay_messages_of_run hrun).1 1).2⟩

end VpnBot.Relays.Health
