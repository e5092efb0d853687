import Mathlib.Data.Finset.Basic
import Mathlib.Data.List.TakeWhile
import VpnBot.Anomaly.Ingestion

/-!
# The window of the evidence

`_record_ip` appends to the deque of a key, and `_unique_ips_in_window` drops from its left up to the first
observation in the window.  The lines of the Xray log bring their own times, so that an old observation may
stand behind one that is still in the window, where it goes on to count.  `evidence_iff` says when the IPs that
a check counts are those of the window, for any observations and any times of the checks; where no check was
made at a later time than this one, only the order of the observations matters.

In a run of the service the events of a key are what its scans observe of it, and the checks are made at their
times (`exists_keyEvents`), so that `counted_of_run` says the same about `check_all`.
-/

namespace VpnBot.Anomaly

open Py Sys

/-! ### The deque of one key -/

/-- What befalls the observations of a key: one is recorded, or a check ages them. -/
inductive KeyEvent
  | record (o : ℤ × Text)
  | check (now : ℤ)

/-- The observations that a check leaves. -/
def ageOut (window now : ℤ) (queue : List (ℤ × Text)) : List (ℤ × Text) :=
  queue.dropWhile fun o => o.1 < now - window

/-- The deque after an event. -/
def age (window : ℤ) (queue : List (ℤ × Text)) : KeyEvent → List (ℤ × Text)
  | .record o => queue ++ [o]
  | .check now => ageOut window now queue

/-- The deque after these events. -/
def queueAfter (window : ℤ) (events : List KeyEvent) : List (ℤ × Text) := events.foldl (age window) []

/-- The observations that were recorded, in their order. -/
def recordedIn (events : List KeyEvent) : List (ℤ × Text) :=
  events.filterMap fun
    | .record o => some o
    | .check _ => none

def checksIn (events : List KeyEvent) : List ℤ :=
  events.filterMap fun
    | .record _ => none
    | .check now => some now

/-- What `_unique_ips_in_window` returns. -/
def uniqueIps (window now : ℤ) (queue : List (ℤ × Text)) : Finset Text :=
  ((ageOut window now queue).map Prod.snd).toFinset

/-- The IPs of the observations with a timestamp in the window. -/
def windowIps (window now : ℤ) (recorded : List (ℤ × Text)) : Finset Text :=
  ((recorded.filter fun o => now - window ≤ o.1).map Prod.snd).toFinset

/-! ### What a check leaves -/

variable {window now t : ℤ} {events : List KeyEvent} {queue dropped : List (ℤ × Text)} {o : ℤ × Text}

theorem mem_dropWhile_iff {α : Type} {p : α → Bool} {l : List α} {a : α} :
    a ∈ l.dropWhile p ↔ a ∈ l ∧ p a = false ∨ ∃ b, p b = false ∧ [b, a].Sublist l := by
  induction l with
  | nil => simp
  | cons c l ih =>
    by_cases hc : p c = true
    · rw [List.dropWhile_cons_of_pos hc, ih]
      have hne : ∀ b, p b = false → b ≠ c := by
        rintro b hb rfl
        rw [hb] at hc
        cases hc
      constructor
      · rintro (⟨ha, hpa⟩ | ⟨b, hb, hsub⟩)
        · exact Or.inl ⟨List.mem_cons_of_mem _ ha, hpa⟩
        · exact Or.inr ⟨b, hb, hsub.cons c⟩
      · rintro (⟨ha, hpa⟩ | ⟨b, hb, hsub⟩)
        · rcases List.mem_cons.mp ha with rfl | ha
          · exact absurd rfl (hne a hpa)
          · exact Or.inl ⟨ha, hpa⟩
        · cases hsub with
          | cons _ hsub => exact Or.inr ⟨b, hb, hsub⟩
          | cons_cons _ hsub => exact absurd rfl (hne c hb)
    · rw [List.dropWhile_cons_of_neg hc]
      rw [Bool.not_eq_true] at hc
      constructor
      · intro ha
        rcases List.mem_cons.mp ha with rfl | ha
        · exact Or.inl ⟨List.mem_cons_self, hc⟩
        · exact Or.inr ⟨c, hc, (List.singleton_sublist.mpr ha).cons_cons c⟩
      · rintro (⟨ha, -⟩ | ⟨b, -, hsub⟩)
        · exact ha
        · exact hsub.subset (List.mem_cons_of_mem _ List.mem_cons_self)

theorem mem_ageOut : o ∈ ageOut window t queue ↔ o ∈ queue ∧ t - window ≤ o.1 ∨
    ∃ f : ℤ × Text, t - window ≤ f.1 ∧ [f, o].Sublist queue := by
  simp only [ageOut, mem_dropWhile_iff, decide_eq_false_iff_not, not_lt]

theorem mem_uniqueIps {ip : Text} :
    ip ∈ uniqueIps window t queue ↔ ∃ o ∈ ageOut window t queue, o.2 = ip := by
  rw [uniqueIps, List.mem_toFinset, List.mem_map]

theorem mem_windowIps {ip : Text} {recorded : List (ℤ × Text)} :
    ip ∈ windowIps window t recorded ↔ ∃ o ∈ recorded, t - window ≤ o.1 ∧ o.2 = ip := by
  simp only [windowIps, List.mem_toFinset, List.mem_map, List.mem_filter, decide_eq_true_eq, and_assoc]

theorem exists_dropped (window : ℤ) (events : List KeyEvent) (queue : List (ℤ × Text)) :
    ∃ dropped, queue ++ recordedIn events = dropped ++ events.foldl (age window) queue ∧
      ∀ o ∈ dropped, ∃ now ∈ checksIn events, o.1 < now - window := by
  induction events generalizing queue with
  | nil => exact ⟨[], List.append_nil queue, nofun⟩
  | cons e events ih =>
    cases e with
    | record o =>
      obtain ⟨dropped, hsplit, hold⟩ := ih (queue ++ [o])
      refine ⟨dropped, ?_, hold⟩
      rw [List.append_assoc] at hsplit
      exact hsplit
    | check now =>
      obtain ⟨dropped, hsplit, hold⟩ := ih (ageOut window now queue)
      refine ⟨queue.takeWhile (fun o => o.1 < now - window) ++ dropped, ?_, fun o ho => ?_⟩
      · have hqueue : queue.takeWhile (fun o => o.1 < now - window) ++ ageOut window now queue = queue :=
          List.takeWhile_append_dropWhile
        change queue ++ recordedIn events = _
        conv_lhs => rw [← hqueue]
        rw [List.append_assoc, hsplit, List.append_assoc]
        rfl
      · rcases List.mem_append.mp ho with ho | ho
        · have hlt := List.mem_takeWhile_imp ho
          exact ⟨now, List.mem_cons_self, of_decide_eq_true hlt⟩
        · obtain ⟨now', hnow', hlt⟩ := hold o ho
          exact ⟨now', List.mem_cons_of_mem _ hnow', hlt⟩

/-! ### When a check counts the window -/

/-- A check counts the IPs of the window, and what it drops is out of the window of every later check. -/
structure Evidence (window : ℤ) (events : List KeyEvent) (t : ℤ) : Prop where
  counted : uniqueIps window t (queueAfter window events) = windowIps window t (recordedIn events)
  outdated : ∀ o ∈ queueAfter window events, o ∉ ageOut window t (queueAfter window events) →
    ∀ later, t ≤ later → o.1 < later - window

/-- Every old observation that was recorded after one in the window shares its IP with one in the window. -/
def InOrder (window t : ℤ) (observed recorded : List (ℤ × Text)) : Prop :=
  ∀ f o : ℤ × Text, [f, o].Sublist observed → t - window ≤ f.1 → o.1 < t - window →
    ∃ g ∈ recorded, t - window ≤ g.1 ∧ g.2 = o.2

/-- No observation in the window was dropped by a check that was made at a later time, or one with its IP is
still there: in the window, or behind one that is. -/
def NoneLost (window t : ℤ) (events : List KeyEvent) : Prop :=
  ∀ dropped, recordedIn events = dropped ++ queueAfter window events → ∀ o ∈ dropped, t - window ≤ o.1 →
    ∃ g ∈ queueAfter window events, g.2 = o.2 ∧
      (t - window ≤ g.1 ∨ ∃ f : ℤ × Text, t - window ≤ f.1 ∧ [f, g].Sublist (queueAfter window events))

theorem outdated_of_not_mem_ageOut (ho : o ∈ queue) (hnot : o ∉ ageOut window t queue) {later : ℤ}
    (hle : t ≤ later) : o.1 < later - window := by
  have hold : o.1 < t - window := by
    by_contra hfresh
    exact hnot (mem_ageOut.mpr (Or.inl ⟨ho, not_lt.mp hfresh⟩))
  omega

theorem counted_iff : uniqueIps window t (queueAfter window events) = windowIps window t (recordedIn events) ↔
    InOrder window t (queueAfter window events) (recordedIn events) ∧ NoneLost window t events := by
  obtain ⟨dropped, hsplit, -⟩ := exists_dropped window events []
  change recordedIn events = dropped ++ queueAfter window events at hsplit
  have hqueue : ∀ o ∈ queueAfter window events, o ∈ recordedIn events := fun o ho => by
    rw [hsplit]
    exact List.mem_append_right _ ho
  constructor
  · intro hcounted
    refine ⟨fun f o hsub hf _ => ?_, fun dropped' hsplit' o ho hfresh => ?_⟩
    · have hip : o.2 ∈ uniqueIps window t (queueAfter window events) :=
        mem_uniqueIps.mpr ⟨o, mem_ageOut.mpr (Or.inr ⟨f, hf, hsub⟩), rfl⟩
      rw [hcounted] at hip
      exact mem_windowIps.mp hip
    · have hip : o.2 ∈ windowIps window t (recordedIn events) :=
        mem_windowIps.mpr ⟨o, hsplit' ▸ List.mem_append_left _ ho, hfresh, rfl⟩
      rw [← hcounted] at hip
      obtain ⟨g, hg, hgip⟩ := mem_uniqueIps.mp hip
      rcases mem_ageOut.mp hg with ⟨hmem, hgfresh⟩ | ⟨f, hf, hsub⟩
      · exact ⟨g, hmem, hgip, Or.inl hgfresh⟩
      · exact ⟨g, hsub.subset (List.mem_cons_of_mem _ List.mem_cons_self), hgip, Or.inr ⟨f, hf, hsub⟩⟩
  · rintro ⟨horder, hnone⟩
    ext ip
    rw [mem_uniqueIps, mem_windowIps]
    constructor
    · rintro ⟨o, ho, rfl⟩
      rcases mem_ageOut.mp ho with ⟨hmem, hfresh⟩ | ⟨f, hf, hsub⟩
      · exact ⟨o, hqueue o hmem, hfresh, rfl⟩
      · by_cases hfresh : t - window ≤ o.1
        · exact ⟨o, hqueue o (hsub.subset (List.mem_cons_of_mem _ List.mem_cons_self)), hfresh, rfl⟩
        · exact horder f o hsub hf (not_le.mp hfresh)
    · rintro ⟨o, ho, hfresh, rfl⟩
      rw [hsplit] at ho
      rcases List.mem_append.mp ho with ho | ho
      · obtain ⟨g, hg, hgip, hstays⟩ := hnone dropped hsplit o ho hfresh
        exact ⟨g, mem_ageOut.mpr (hstays.imp (fun h => ⟨hg, h⟩) id), hgip⟩
      · exact ⟨o, mem_ageOut.mpr (Or.inl ⟨ho, hfresh⟩), rfl⟩

theorem sublist_of_sublist_append {α : Type} {a b : α} {l m : List α} (h : [a, b].Sublist (l ++ m))
    (ha : a ∉ l) : [a, b].Sublist m := by
  obtain ⟨l₁, l₂, heq, h₁, h₂⟩ := List.sublist_append_iff.mp h
  cases l₁ with
  | nil =>
    rw [List.nil_append] at heq
    rw [heq]
    exact h₂
  | cons c l₁ =>
    rw [List.cons_append, List.cons.injEq] at heq
    rw [heq.1] at ha
    exact absurd (h₁.subset List.mem_cons_self) ha

/-- Where no check was made at a later time, only the order in which the observations came matters. -/
theorem inOrder_iff_of_checks (hclock : ∀ now ∈ checksIn events, now ≤ t) :
    InOrder window t (queueAfter window events) (recordedIn events) ∧ NoneLost window t events ↔
      InOrder window t (recordedIn events) (recordedIn events) := by
  have hold : ∀ dropped, recordedIn events = dropped ++ queueAfter window events →
      ∀ o ∈ dropped, o.1 < t - window := by
    intro dropped hsplit o ho
    obtain ⟨dropped', hsplit', hold⟩ := exists_dropped window events []
    change recordedIn events = dropped' ++ queueAfter window events at hsplit'
    obtain rfl : dropped = dropped' := List.append_cancel_right (hsplit.symm.trans hsplit')
    obtain ⟨now, hnow, hlt⟩ := hold o ho
    have := hclock now hnow
    omega
  obtain ⟨dropped, hsplit, -⟩ := exists_dropped window events []
  change recordedIn events = dropped ++ queueAfter window events at hsplit
  constructor
  · rintro ⟨horder, -⟩ f o hsub hf ho
    rw [hsplit] at hsub
    refine horder f o (sublist_of_sublist_append hsub fun hmem => ?_) hf ho
    have := hold dropped hsplit f hmem
    omega
  · intro horder
    refine ⟨fun f o hsub => horder f o ?_, fun dropped' hsplit' o ho hfresh => ?_⟩
    · rw [hsplit]
      exact hsub.trans (List.sublist_append_right _ _)
    · have := hold dropped' hsplit' o ho
      omega

/-- **A check counts the window** exactly when no old observation stands behind one in the window, and the
clock has not gone back past observations, up to those with an IP that counts anyway. -/
theorem evidence_iff (window : ℤ) (events : List KeyEvent) (t : ℤ) :
    (Evidence window events t ↔
      InOrder window t (queueAfter window events) (recordedIn events) ∧ NoneLost window t events) ∧
    ((∀ now ∈ checksIn events, now ≤ t) →
      (Evidence window events t ↔ InOrder window t (recordedIn events) (recordedIn events))) := by
  have hevidence : Evidence window events t ↔
      InOrder window t (queueAfter window events) (recordedIn events) ∧ NoneLost window t events := by
    rw [← counted_iff]
    exact ⟨Evidence.counted, fun h => ⟨h, fun _ ho hnot _ => outdated_of_not_mem_ageOut ho hnot⟩⟩
  exact ⟨hevidence, fun hclock => hevidence.trans (inOrder_iff_of_checks hclock)⟩

def lateLine : List KeyEvent :=
  [.record (3700, "198.51.100.1".toList), .record (150, "203.0.113.2".toList)]

/-- The late line counts when it is out of the window. -/
theorem late_line_counted : ¬ ∀ (window : ℤ) (events : List KeyEvent) (t : ℤ), Evidence window events t := by
  intro h
  have hcounted := (h 3600 lateLine 3800).counted
  revert hcounted
  decide +kernel

/-! ### The deques of the service -/

section Service

variable {config : AnomalyConfig} {input : ScanInput} {s s' : AnomalySystem} {keyId : ℕ} {α : Type}

/-- The deque of a key; one that has none has no observation. -/
def queueOf (keyId : ℕ) (s : AnomalySystem) : List (ℤ × Text) := (s.observations.get? keyId).getD []

/-- What `_record_ip` appends to the deque of `keyId` when it is called for the key `k`. -/
def seen (input : ScanInput) (keyId k : ℕ) (time : ℤ) (ip : Text) : List (ℤ × Text) :=
  if keyId = k ∧ input.relaySource ip = false then [(time, ip)] else []

/-- What the endpoints of a scan show of a key. -/
def awgSeen (input : ScanInput) (keyId : ℕ) (keys : Text → Option ℕ) (endpoint : Text × Text) :
    List (ℤ × Text) :=
  match keys endpoint.1 with
  | some k => if endpoint.2 = [] then [] else seen input keyId k input.now endpoint.2
  | none => []

/-- What the AWG pass of a scan observes of a key. -/
def awgObserves (keyId : ℕ) (input : ScanInput) : List (ℤ × Text) :=
  if input.awgRemoved then []
  else
    match input.awgKeys with
    | none => []
    | some keys => (input.awgEndpoints.getD []).flatMap (awgSeen input keyId keys)

/-- What a scan observes of a key: the endpoints, and then the entries that no scan has read before. -/
def scanObserves (config : AnomalyConfig) (keyId : ℕ) (s : AnomalySystem) (input : ScanInput) :
    List (ℤ × Text) :=
  awgObserves keyId input ++ (unread s.highWater (scanReads config s.log input)).flatMap fun entry =>
    seen input keyId entry.keyId entry.timestamp entry.ip

/-- These observations are appended to the deque of the key. -/
def Appends (keyId : ℕ) (observed : List (ℤ × Text)) (s s' : AnomalySystem) : Prop :=
  queueOf keyId s' = queueOf keyId s ++ observed

theorem appends_nil : Appends keyId [] s s := (List.append_nil _).symm

theorem appends_recordIp (k : ℕ) (time : ℤ) (ip : Text) :
    Appends keyId (seen input keyId k time ip) s (recordIp input k time ip s) := by
  unfold recordIp seen
  by_cases hk : keyId = k
  · subst hk
    cases hrelay : input.relaySource ip with
    | true => simpa using appends_nil
    | false =>
      rw [if_neg Bool.false_ne_true, if_pos ⟨rfl, rfl⟩]
      exact congrArg (Option.getD · []) (Dict.get?_set_self _ _ _)
  · rw [if_neg (c := keyId = k ∧ _) fun h => hk h.1]
    split_ifs
    · exact appends_nil
    · exact Eq.trans (congrArg (Option.getD · []) (Dict.get?_set_of_ne _ _ hk)) appends_nil

theorem appends_foldl {f : AnomalySystem → α → AnomalySystem} {g : α → List (ℤ × Text)}
    (hf : ∀ s a, Appends keyId (g a) s (f s a)) (l : List α) :
    Appends keyId (l.flatMap g) s (l.foldl f s) := by
  induction l generalizing s with
  | nil => exact appends_nil
  | cons a l ih =>
    have htail : queueOf keyId (l.foldl f (f s a)) = queueOf keyId (f s a) ++ l.flatMap g := ih
    rw [Appends, List.foldl_cons, htail, hf, List.flatMap_cons, List.append_assoc]

theorem appends_ingest (previous : ℤ) (entries : List LogEntry) :
    Appends keyId ((unread previous (timely input entries)).flatMap fun entry =>
      seen input keyId entry.keyId entry.timestamp entry.ip) s (entries.foldl (ingest input previous) s) := by
  have hentry : ∀ s entry, Appends keyId (if entry.timestamp ≤ previous ∨
      input.now + XRAY_LOG_FUTURE_SKEW_SECONDS < entry.timestamp then []
      else seen input keyId entry.keyId entry.timestamp entry.ip) s (ingest input previous s entry) := by
    intro s entry
    unfold ingest
    split_ifs
    · exact appends_nil
    · exact appends_recordIp entry.keyId entry.timestamp entry.ip
  have hflat : ∀ entries : List LogEntry, (unread previous (timely input entries)).flatMap (fun entry =>
      seen input keyId entry.keyId entry.timestamp entry.ip) = entries.flatMap fun entry =>
        if entry.timestamp ≤ previous ∨ input.now + XRAY_LOG_FUTURE_SKEW_SECONDS < entry.timestamp then []
        else seen input keyId entry.keyId entry.timestamp entry.ip := by
    intro entries
    rw [unread_timely]
    induction entries with
    | nil => rfl
    | cons entry entries ih =>
      rw [List.filter_cons, List.flatMap_cons, ← ih]
      by_cases hskip : entry.timestamp ≤ previous ∨
          input.now + XRAY_LOG_FUTURE_SKEW_SECONDS < entry.timestamp
      · rw [if_neg fun hkept => (of_decide_eq_true hkept) hskip, if_pos hskip, List.nil_append]
      · rw [if_pos (decide_eq_true hskip), if_neg hskip, List.flatMap_cons]
  rw [hflat]
  exact appends_foldl hentry entries

theorem ends_awgPass_appends (keyId : ℕ) :
    Program.Ends (unlessRemoved input.awgRemoved (sampleAwgEndpoints input))
      (fun _ => Appends keyId (awgObserves keyId input) s)
      (fun _ => Appends keyId (awgObserves keyId input) s) s := by
  unfold unlessRemoved sampleAwgEndpoints awgObserves
  cases input.awgRemoved with
  | true => exact appends_nil
  | false =>
    cases input.awgKeys with
    | none => exact appends_nil
    | some keys =>
      refine appends_foldl (fun s endpoint => ?_) _
      unfold awgSeen
      cases keys endpoint.1 with
      | none => exact appends_nil
      | some k =>
        dsimp only
        split_ifs
        · exact appends_nil
        · exact appends_recordIp _ _ _

theorem ends_xrayPass_appends (config : AnomalyConfig) (keyId : ℕ)
    (hraised : (!input.awgRemoved && input.awgKeys.isNone) = false) :
    let observed := (unread s.highWater (scanReads config s.log input)).flatMap fun entry =>
      seen input keyId entry.keyId entry.timestamp entry.ip
    Program.Ends (unlessRemoved input.xrayRemoved (sampleXrayLog config input))
      (fun _ => Appends keyId observed s) (fun _ => Appends keyId observed s) s := by
  dsimp only
  unfold unlessRemoved sampleXrayLog scanReads
  rw [hraised, if_neg Bool.false_ne_true]
  cases input.xrayRemoved with
  | true => exact appends_nil
  | false =>
    cases input.xrayKeys with
    | none =>
      rw [ite_self]
      exact appends_nil
    | some keys =>
      cases input.logReadable with
      | false => exact appends_nil
      | true => exact appends_ingest s.highWater _

/-- **The samples of a scan** append what it observes of the key. -/
theorem ends_collect_appends :
    Program.Ends (collect config input) (fun _ => Appends keyId (scanObserves config keyId s input) s)
      (fun _ => Appends keyId (scanObserves config keyId s input) s) s := by
  unfold collect evictStaleLastAlerted sample
  rw [Program.ends_bind, Program.ends_modify, Program.ends_bind]
  refine (ends_awgPass.and (ends_awgPass_appends keyId)).mono (fun _ s₁ h => ?_) fun _ s₁ h => ?_
  · obtain ⟨⟨hkeeps, hraised⟩, hawg⟩ := h
    obtain ⟨hlog, hpair⟩ := Prod.mk.inj hkeeps
    have hwater : s₁.highWater = s.highWater := (Prod.mk.inj hpair).2
    have hxray := ends_xrayPass_appends config keyId (s := s₁) hraised
    rw [hlog, hwater] at hxray
    have hboth : ∀ s', Appends keyId _ s₁ s' → Appends keyId (scanObserves config keyId s input) s s' :=
      fun s' h' => h'.trans ((congrArg (· ++ _) hawg).trans (List.append_assoc _ _ _))
    exact hxray.mono (fun _ => hboth) fun _ => hboth
  · obtain ⟨⟨-, hraised⟩, hawg⟩ := h
    unfold scanObserves scanReads
    rw [if_pos hraised]
    exact hawg.trans (congrArg _ (List.append_nil _).symm)

/-! ### The check of a scan -/

/-- The deque of the key is left as it is, or aged once. -/
def Aged (config : AnomalyConfig) (now : ℤ) (keyId : ℕ) (s s' : AnomalySystem) : Prop :=
  queueOf keyId s' = queueOf keyId s ∨
    queueOf keyId s' = ageOut config.windowSeconds now (queueOf keyId s)

theorem Aged.trans {s₁ : AnomalySystem} (h : Aged config input.now keyId s s₁)
    (h' : Aged config input.now keyId s₁ s') : Aged config input.now keyId s s' := by
  unfold Aged at *
  rcases h with h | h
  · rwa [h] at h'
  · have htwice : ageOut config.windowSeconds input.now (queueOf keyId s₁) = queueOf keyId s₁ := by
      rw [h]
      exact List.dropWhile_idempotent _ _
    rw [htwice, or_self] at h'
    exact Or.inr (h'.trans h)

theorem ends_keepObserved_aged (keyId k : ℕ) :
    Program.Ends (keepObserved k (inWindow config input (queueOf k s)))
      (fun _ => Aged config input.now keyId s) (fun _ _ => False) s := by
  unfold keepObserved
  by_cases hk : keyId = k
  · subst hk
    split_ifs with hempty
    · rw [List.isEmpty_iff] at hempty
      refine Or.inr (Eq.trans ?_ hempty.symm)
      exact congrArg (Option.getD · []) ((Dict.get?_erase _ _ _).trans (if_pos rfl))
    · exact Or.inr (congrArg (Option.getD · []) (Dict.get?_set_self _ _ _))
  · split_ifs
    · exact Or.inl (congrArg (Option.getD · []) ((Dict.get?_erase _ _ _).trans (if_neg hk)))
    · exact Or.inl (congrArg (Option.getD · []) (Dict.get?_set_of_ne _ _ hk))

theorem ends_judgeKeys_aged (keyIds : List ℕ) :
    Program.Ends (judgeKeys config input keyIds) (fun _ => Aged config input.now keyId s)
      (fun _ => Aged config input.now keyId s) s := by
  induction keyIds generalizing s with
  | nil => exact Or.inl rfl
  | cons k keyIds ih =>
    have hone : Program.Ends (judgeKey config input k) (fun _ => Aged config input.now keyId s)
        (fun _ => Aged config input.now keyId s) s := by
      unfold judgeKey
      rw [Program.ends_bind, Program.ends_get, Program.ends_bind]
      refine (ends_keepObserved_aged keyId k).mono ?_ fun _ _ h => h.elim
      rintro - s₁ h
      rw [Program.ends_bind, Program.ends_get]
      split_ifs
      · exact h
      · exact h
      · cases input.rowOf k with
        | raised => exact h
        | missing => exact h
        | row active => exact h
    rw [judgeKeys, Program.ends_bind]
    refine hone.mono (fun _ s₁ h => ?_) fun _ _ h => h
    rw [Program.ends_bind]
    exact (ih (s := s₁)).mono (fun _ _ h' => h.trans h') fun _ _ h' => h.trans h'

theorem ends_checkThresholds_aged :
    Program.Ends (checkThresholds config input) (fun _ => Aged config input.now keyId s)
      (fun _ => Aged config input.now keyId s) s := by
  unfold checkThresholds
  rw [Program.ends_bind, Program.ends_get, Program.ends_bind]
  refine (ends_judgeKeys_aged _).mono (fun triggered s₁ h => ?_) fun _ _ h => h
  have hkey : ∀ s k, queueOf keyId (alertKey input k s) = queueOf keyId s := fun _ _ => rfl
  have hbundle : ∀ s bundleId, queueOf keyId (alertBundle input triggered bundleId s) = queueOf keyId s :=
    fun _ _ => rfl
  exact h.trans (Or.inl ((foldl_keeps hbundle _).trans (foldl_keeps hkey _)))

/-- **One scan** records what it observes of the key, and ages the deque at most once, at its own time. -/
theorem scan_queueOf (config : AnomalyConfig) (keyId : ℕ) (s : AnomalySystem) (input : ScanInput) :
    let recorded := queueOf keyId s ++ scanObserves config keyId s input
    let s' := (Program.result (checkAll config input) s).2
    queueOf keyId s' = recorded ∨ queueOf keyId s' = ageOut config.windowSeconds input.now recorded := by
  intro recorded s'
  refine Program.Ends.result (R := fun _ s' => queueOf keyId s' = recorded ∨
    queueOf keyId s' = ageOut config.windowSeconds input.now recorded) ?_
  have hhysteria : Program.Keeps (queueOf keyId)
      (unlessRemoved input.hysteria2Removed (checkHysteriaOnline config input)) := by
    unfold unlessRemoved
    split_ifs
    · exact Program.keeps_pure _
    · exact keeps_checkHysteriaOnline fun _ _ => rfl
  unfold checkAll
  rw [Program.ends_bind]
  refine ends_collect_appends.mono (fun _ s₁ h₁ => ?_) fun _ _ h₁ => Or.inl h₁
  rw [Program.ends_bind]
  have hrecorded : recorded = queueOf keyId s₁ := h₁.symm
  rw [hrecorded]
  refine ends_checkThresholds_aged.mono (fun _ s₂ h₂ => ?_) fun _ _ h₂ => h₂
  exact (hhysteria s₂).mono (fun _ _ h₃ => h₂.trans (Or.inl h₃)) fun _ _ h₃ => h₂.trans (Or.inl h₃)

/-! ### Runs -/

/-- What the scans of a run observe of a key. -/
def observedIn (config : AnomalyConfig) (keyId : ℕ) : AnomalySystem → List AnomalyEvent → List (ℤ × Text)
  | _, [] => []
  | s, .append line :: events => observedIn config keyId { s with log := s.log ++ [line] } events
  | s, .scan input :: events => scanObserves config keyId s input ++ observedIn config keyId
      { (Program.result (checkAll config input) s).2 with lastScan := some input.now } events

theorem foldl_age_records (window : ℤ) (l queue : List (ℤ × Text)) :
    (l.map KeyEvent.record).foldl (age window) queue = queue ++ l := by
  induction l generalizing queue with
  | nil => exact (List.append_nil _).symm
  | cons o l ih => exact (ih _).trans (List.append_assoc _ _ _)

theorem recordedIn_records (l : List (ℤ × Text)) (events : List KeyEvent) :
    recordedIn (l.map .record ++ events) = l ++ recordedIn events ∧
      checksIn (l.map .record ++ events) = checksIn events := by
  induction l with
  | nil => exact ⟨rfl, rfl⟩
  | cons o l ih => exact ⟨congrArg (o :: ·) ih.1, ih.2⟩

/-- **The deque of a key comes from its events**, in every run of the service: what the scans observe of it is
recorded, in their order, and the checks are made at the times of scans. -/
theorem exists_keyEvents (keyId : ℕ) (events : List AnomalyEvent) (s s' : AnomalySystem)
    (hrun : runFrom (step config) s events = some s') :
    ∃ keyEvents, queueOf keyId s' = keyEvents.foldl (age config.windowSeconds) (queueOf keyId s) ∧
      recordedIn keyEvents = observedIn config keyId s events ∧
      ∀ time ∈ checksIn keyEvents, ∃ input, AnomalyEvent.scan input ∈ events ∧ input.now = time := by
  induction events generalizing s with
  | nil =>
    cases hrun
    exact ⟨[], rfl, rfl, nofun⟩
  | cons event events ih =>
    obtain ⟨s₁, hstep, hrest⟩ := Option.bind_eq_some_iff.mp hrun
    obtain ⟨rest, hqueue, hrecorded, hscans⟩ := ih s₁ hrest
    have hlater : ∀ time ∈ checksIn rest, ∃ input, AnomalyEvent.scan input ∈ event :: events ∧
        input.now = time := fun time htime =>
      (hscans time htime).imp fun _ h => ⟨List.mem_cons_of_mem _ h.1, h.2⟩
    cases event with
    | append line =>
      cases hstep
      exact ⟨rest, hqueue, hrecorded, hlater⟩
    | scan input =>
      cases hstep
      -- the scan records what it observes, and it checks the key or does not
      have hscan : ∀ checks : List KeyEvent, recordedIn (checks ++ rest) = recordedIn rest →
          (∀ time ∈ checksIn (checks ++ rest), time = input.now ∨ time ∈ checksIn rest) →
          queueOf keyId (Program.result (checkAll config input) s).2 =
            checks.foldl (age config.windowSeconds) (queueOf keyId s ++ scanObserves config keyId s input) →
          ∃ keyEvents, queueOf keyId s' = keyEvents.foldl (age config.windowSeconds) (queueOf keyId s) ∧
            recordedIn keyEvents = observedIn config keyId s (.scan input :: events) ∧
            ∀ time ∈ checksIn keyEvents, ∃ input', AnomalyEvent.scan input' ∈ .scan input :: events ∧
              input'.now = time := by
        intro checks hrecords htimes hqueue₁
        obtain ⟨hr, hc⟩ := recordedIn_records (scanObserves config keyId s input) (checks ++ rest)
        refine ⟨_, ?_, hr.trans (congrArg _ (hrecords.trans hrecorded)), fun time htime => ?_⟩
        · rw [List.foldl_append, foldl_age_records, List.foldl_append, ← hqueue₁]
          exact hqueue
        · rw [hc] at htime
          obtain rfl | htime := htimes time htime
          · exact ⟨input, List.mem_cons_self, rfl⟩
          · exact hlater time htime
      obtain h | h := scan_queueOf config keyId s input
      · exact hscan [] rfl (fun _ htime => Or.inr htime) h
      · exact hscan [.check input.now] rfl (fun _ htime => List.mem_cons.mp htime) h

/-- **What a check of the service counts**, in any run whose scans were not made at a later time: it is the
window of what the scans have observed exactly when they have observed in order. -/
theorem counted_of_run {log : List LogLine} {events : List AnomalyEvent} {t : ℤ}
    (hrun : runFrom (step config) (initial log) events = some s)
    (hclock : ∀ input, AnomalyEvent.scan input ∈ events → input.now ≤ t) :
    uniqueIps config.windowSeconds t (queueOf keyId s) =
        windowIps config.windowSeconds t (observedIn config keyId (initial log) events) ↔
      InOrder config.windowSeconds t (observedIn config keyId (initial log) events)
        (observedIn config keyId (initial log) events) := by
  obtain ⟨keyEvents, hqueue, hrecorded, hscans⟩ := exists_keyEvents keyId events _ _ hrun
  have hchecks : ∀ time ∈ checksIn keyEvents, time ≤ t := by
    intro time htime
    obtain ⟨input, hmem, rfl⟩ := hscans time htime
    exact hclock input hmem
  have hdeque : queueOf keyId s = queueAfter config.windowSeconds keyEvents := hqueue
  rw [hdeque, ← hrecorded, counted_iff, inOrder_iff_of_checks hchecks]

end Service

end VpnBot.Anomaly
