import VpnBot.Anomaly.Detection

/-!
# The cooldown of the alerts

While the stamp of a key is kept, its next alert waits for the end of the cooldown.  A scan forgets a stamp
when the cooldown is over, and also when all observations of the key have left the window; only the latter
can come too early (`KeepsStamps`).  `alerts_apart` is the result for the runs in which it does not, and
`alerted_twice` a run in which it does.
-/

namespace VpnBot.Anomaly

open Py Sys

variable {config : AnomalyConfig} {input : ScanInput} {s s₁ s' : AnomalySystem} {now now' : ℤ}
  {keyId : ℕ} {keyIds : List ℕ} {event : AnomalyEvent} {events : List AnomalyEvent}

/-! ### The invariant -/

/-- Alerts of one key are a cooldown apart. -/
def Apart (cooldown : ℤ) (alerts : List (ℕ × ℤ)) : Prop :=
  alerts.Pairwise fun a b => a.1 = b.1 → cooldown ≤ b.2 - a.2

/-- The cooldown of the key is over. -/
def Clear (config : AnomalyConfig) (now : ℤ) (s : AnomalySystem) (keyId : ℕ) : Prop :=
  ∀ a ∈ s.alerts, a.1 = keyId → config.cooldownSeconds ≤ now - a.2

/-- Alerts of one key are a cooldown apart, and each alert is over or its key has a stamp that is not
older. -/
structure CooldownInv (config : AnomalyConfig) (now : ℤ) (s : AnomalySystem) : Prop where
  apart : Apart config.cooldownSeconds s.alerts
  past : ∀ a ∈ s.alerts, a.2 ≤ now
  stamped : ∀ a ∈ s.alerts, config.cooldownSeconds ≤ now - a.2 ∨
    ∃ time, s.lastAlerted.get? a.1 = some time ∧ a.2 ≤ time

theorem CooldownInv.later (h : CooldownInv config now s) (hle : now ≤ now') : CooldownInv config now' s := by
  refine ⟨h.apart, fun a ha => (h.past a ha).trans hle, fun a ha => (h.stamped a ha).imp_left ?_⟩
  intro hover
  omega

theorem CooldownInv.congr (h : CooldownInv config now s) (halerts : s'.alerts = s.alerts)
    (hstamps : s'.lastAlerted = s.lastAlerted) : CooldownInv config now s' := by
  refine ⟨halerts ▸ h.apart, halerts ▸ h.past, fun a ha => ?_⟩
  rw [hstamps]
  exact h.stamped a (halerts ▸ ha)

theorem Clear.congr (h : Clear config now s keyId) (halerts : s'.alerts = s.alerts) :
    Clear config now s' keyId := by
  unfold Clear
  rw [halerts]
  exact h

theorem CooldownInv.clear (h : CooldownInv config now s)
    (hcheck : ¬ now - (s.lastAlerted.get? keyId).getD 0 < config.cooldownSeconds) :
    Clear config now s keyId := by
  rintro a ha rfl
  rcases h.stamped a ha with hover | ⟨time, htime, hle⟩
  · exact hover
  · rw [htime, Option.getD_some] at hcheck
    omega

/-! ### Alerts -/

theorem get?_foldl_set (d : Dict ℕ ℤ) :
    (keyIds.foldl (fun d keyId => d.set keyId now) d).get? keyId =
      if keyId ∈ keyIds then some now else d.get? keyId := by
  induction keyIds generalizing d with
  | nil => rfl
  | cons k keyIds ih =>
    rw [List.foldl_cons, ih, Dict.get?_set]
    by_cases hmem : keyId ∈ keyIds
    · rw [if_pos hmem, if_pos (List.mem_cons_of_mem _ hmem)]
    · by_cases heq : keyId = k
      · rw [if_neg hmem, if_pos heq, if_pos (List.mem_cons.2 (Or.inl heq))]
      · rw [if_neg hmem, if_neg heq, if_neg (by simp [heq, hmem])]

theorem CooldownInv.fire {l : List ℕ} (h : CooldownInv config now s) (hnodup : keyIds.Nodup)
    (hclear : ∀ k ∈ keyIds, Clear config now s k) :
    CooldownInv config now (fire now keyIds (stamp now (keyIds ++ l) s)) := by
  refine ⟨?_, fun a ha => ?_, fun a ha => ?_⟩
  · show (s.alerts ++ keyIds.map fun k => (k, now)).Pairwise _
    refine List.pairwise_append.2 ⟨h.apart, ?_, fun a ha b hb hkey => ?_⟩
    · exact List.pairwise_map.2 (hnodup.imp fun hne hkey => absurd hkey hne)
    · obtain ⟨k, hk, rfl⟩ := List.mem_map.1 hb
      exact hclear k hk a ha hkey
  · rcases List.mem_append.1 ha with hold | hnew
    · exact h.past a hold
    · obtain ⟨k, -, rfl⟩ := List.mem_map.1 hnew
      exact le_rfl
  · show _ ∨ ∃ time, ((keyIds ++ l).foldl (fun d k => d.set k now) s.lastAlerted).get? a.1 =
      some time ∧ a.2 ≤ time
    rw [get?_foldl_set]
    rcases List.mem_append.1 ha with hold | hnew
    · split_ifs
      · exact Or.inr ⟨now, rfl, h.past a hold⟩
      · exact h.stamped a hold
    · obtain ⟨k, hk, rfl⟩ := List.mem_map.1 hnew
      rw [if_pos (List.mem_append_left _ hk)]
      exact Or.inr ⟨now, rfl, le_rfl⟩

theorem Clear.fire {l : List ℕ} (h : Clear config now s keyId) (hnot : keyId ∉ keyIds) :
    Clear config now (fire now keyIds (stamp now (keyIds ++ l) s)) keyId := by
  rintro a ha rfl
  rcases List.mem_append.1 ha with hold | hnew
  · exact h a hold rfl
  · obtain ⟨k, hk, rfl⟩ := List.mem_map.1 hnew
    exact absurd hk hnot

/-- Alerts about several groups of keys. -/
theorem CooldownInv.foldl_fire {ι : Type} {f g : ι → List ℕ} {l : List ι}
    (h : CooldownInv config now s) (hnodup : (l.flatMap f).Nodup)
    (hclear : ∀ k ∈ l.flatMap f, Clear config now s k) :
    CooldownInv config now (l.foldl (fun s i => Anomaly.fire now (f i) (stamp now (f i ++ g i) s)) s) ∧
      ∀ k, k ∉ l.flatMap f → Clear config now s k → Clear config now
        (l.foldl (fun s i => Anomaly.fire now (f i) (stamp now (f i ++ g i) s)) s) k := by
  induction l generalizing s with
  | nil => exact ⟨h, fun _ _ hk => hk⟩
  | cons i l ih =>
    rw [List.flatMap_cons] at hnodup hclear
    obtain ⟨hfirst, hrest, hdisjoint⟩ := List.nodup_append'.1 hnodup
    have hkeep : ∀ k ∈ l.flatMap f, Clear config now
        (Anomaly.fire now (f i) (stamp now (f i ++ g i) s)) k := fun k hk =>
      (hclear k (List.mem_append_right _ hk)).fire fun hmem => hdisjoint hmem hk
    obtain ⟨hinv, hothers⟩ := ih
      (h.fire hfirst fun k hk => hclear k (List.mem_append_left _ hk)) hrest hkeep
    refine ⟨hinv, fun k hk hclear' => hothers k ?_ (hclear'.fire ?_)⟩
    · exact fun hmem => hk (List.mem_append_right _ hmem)
    · exact fun hmem => hk (List.mem_append_left _ hmem)

theorem nodup_members {triggered : List ℕ} (h : triggered.Nodup) :
    ((bundlesOf input triggered).flatMap (members input triggered)).Nodup := by
  refine List.nodup_flatMap.2 ⟨fun b _ => h.filter _, ?_⟩
  have hbundles : (bundlesOf input triggered).Nodup := List.nodup_reverse.2 (List.nodup_dedup _)
  refine hbundles.imp fun {b b'} hne k hk hk' => hne ?_
  have hb : input.bundleOf k = some b := by simpa using (List.mem_filter.1 hk).2
  have hb' : input.bundleOf k = some b' := by simpa using (List.mem_filter.1 hk').2
  exact Option.some.inj (hb.symm.trans hb')

/-- **The alerts of a scan**, when the cooldown of all keys that are alerted is over. -/
theorem CooldownInv.dispatchAlerts {triggered : List ℕ} (h : CooldownInv config input.now s)
    (hnodup : triggered.Nodup) (hclear : ∀ k ∈ triggered, Clear config input.now s k) :
    CooldownInv config input.now (dispatchAlerts input triggered s) := by
  have hsingle : (standalone input triggered).flatMap (fun k => [k]) = standalone input triggered :=
    List.flatMap_singleton' _
  obtain ⟨hinv, hothers⟩ := h.foldl_fire (f := fun k => [k]) (g := fun _ => [])
    (l := standalone input triggered) (by rw [hsingle]; exact hnodup.filter _)
    (by rw [hsingle]; exact fun k hk => hclear k (List.mem_of_mem_filter hk))
  refine (hinv.foldl_fire (nodup_members hnodup) fun k hk => ?_).1
  obtain ⟨b, -, hmember⟩ := List.mem_flatMap.1 hk
  obtain ⟨htriggered, hbundle⟩ := List.mem_filter.1 hmember
  refine hothers k ?_ (hclear k htriggered)
  rw [hsingle]
  intro halone
  have hnone := (List.mem_filter.1 halone).2
  rw [of_decide_eq_true hbundle] at hnone
  cases hnone

/-! ### The parts of a scan -/

/-- An old stamp that is forgotten belongs to a cooldown that is over. -/
theorem CooldownInv.evict (h : CooldownInv config input.now s) :
    Program.Ends (evictStaleLastAlerted config input) (fun _ s' => CooldownInv config input.now s')
      (fun _ _ => False) s := by
  refine ⟨h.apart, h.past, fun a ha => ?_⟩
  show _ ∨ ∃ time, (s.lastAlerted.filterMap fun time =>
    if time < input.now - config.cooldownSeconds then none else some time).get? a.1 = some time ∧ a.2 ≤ time
  rcases h.stamped a ha with hover | ⟨time, htime, hle⟩
  · exact Or.inl hover
  · rw [Dict.get?_filterMap, htime, Option.bind_some]
    split_ifs with hold
    · left
      omega
    · exact Or.inr ⟨time, rfl, hle⟩

/-- Sampling sends no alert and forgets no stamp. -/
structure SameAlerts (s s' : AnomalySystem) : Prop where
  alerts : s'.alerts = s.alerts
  lastAlerted : s'.lastAlerted = s.lastAlerted

theorem SameAlerts.trans (h : SameAlerts s s₁) (h' : SameAlerts s₁ s') : SameAlerts s s' :=
  ⟨h'.alerts.trans h.alerts, h'.lastAlerted.trans h.lastAlerted⟩

theorem sameAlerts_recordIp (time : ℤ) (ip : Text) : SameAlerts s (recordIp input keyId time ip s) := by
  unfold recordIp
  split_ifs
  · exact ⟨rfl, rfl⟩
  · exact ⟨rfl, rfl⟩

theorem sameAlerts_foldl {α : Type} {f : AnomalySystem → α → AnomalySystem}
    (hf : ∀ s a, SameAlerts s (f s a)) (l : List α) : SameAlerts s (l.foldl f s) := by
  induction l generalizing s with
  | nil => exact ⟨rfl, rfl⟩
  | cons a l ih => exact (hf s a).trans ih

theorem sameAlerts_ingest (previous : ℤ) (entry : LogEntry) :
    SameAlerts s (ingest input previous s entry) := by
  unfold ingest
  split_ifs
  · exact ⟨rfl, rfl⟩
  · exact (sameAlerts_recordIp entry.timestamp entry.ip).trans ⟨rfl, rfl⟩

theorem ends_sample : Program.Ends (sample config input) (fun _ s' => SameAlerts s s')
    (fun _ s' => SameAlerts s s') s := by
  have hawg : ∀ s, Program.Ends (unlessRemoved input.awgRemoved (sampleAwgEndpoints input))
      (fun _ s' => SameAlerts s s') (fun _ s' => SameAlerts s s') s := by
    intro s
    unfold unlessRemoved sampleAwgEndpoints
    split_ifs
    · exact ⟨rfl, rfl⟩
    · cases input.awgKeys with
      | none => exact ⟨rfl, rfl⟩
      | some keys =>
        refine sameAlerts_foldl (fun s endpoint => ?_) _
        cases keys endpoint.1 with
        | none => exact ⟨rfl, rfl⟩
        | some keyId =>
          show SameAlerts s (if endpoint.2 = [] then s else _)
          split_ifs
          · exact ⟨rfl, rfl⟩
          · exact sameAlerts_recordIp _ _
  have hxray : ∀ s, Program.Ends (unlessRemoved input.xrayRemoved (sampleXrayLog config input))
      (fun _ s' => SameAlerts s s') (fun _ s' => SameAlerts s s') s := by
    intro s
    unfold unlessRemoved sampleXrayLog
    cases input.xrayKeys with
    | none =>
      split_ifs
      · exact ⟨rfl, rfl⟩
      · exact ⟨rfl, rfl⟩
      · exact ⟨rfl, rfl⟩
    | some keys =>
      split_ifs
      · exact ⟨rfl, rfl⟩
      · exact ⟨rfl, rfl⟩
      · exact sameAlerts_foldl (fun s entry => sameAlerts_ingest _ entry) _
  unfold sample
  rw [Program.ends_bind]
  refine (hawg s).mono (fun _ s₁ h => ?_) fun _ _ h => h
  exact (hxray s₁).mono (fun _ _ h' => h.trans h') fun _ _ h' => h.trans h'

/-- No key has lost all its observations while its stamp is younger than the cooldown. -/
def Forgettable (config : AnomalyConfig) (input : ScanInput) (keyIds : List ℕ) (s : AnomalySystem) : Prop :=
  ∀ k ∈ keyIds, inWindow config input ((s.observations.get? k).getD []) = [] →
    ∀ time ∈ s.lastAlerted.get? k, config.cooldownSeconds ≤ input.now - time

instance : Decidable (Forgettable config input keyIds s) :=
  inferInstanceAs (Decidable (∀ k ∈ keyIds, _ → ∀ time ∈ _, _))

/-- What judging a key changes: its own observations and, when there are none, its stamp. -/
structure Judged (keyId : ℕ) (s s' : AnomalySystem) : Prop where
  alerts : s'.alerts = s.alerts
  observations : ∀ k, k ≠ keyId → s'.observations.get? k = s.observations.get? k
  lastAlerted : ∀ k, k ≠ keyId → s'.lastAlerted.get? k = s.lastAlerted.get? k

theorem ends_keepObserved (h : CooldownInv config input.now s)
    (hforget : Forgettable config input [keyId] s) :
    Program.Ends (keepObserved keyId (inWindow config input ((s.observations.get? keyId).getD [])))
      (fun _ s' => CooldownInv config input.now s' ∧ Judged keyId s s') (fun _ _ => False) s := by
  unfold keepObserved
  split_ifs with hempty
  · refine ⟨⟨h.apart, h.past, fun a ha => ?_⟩, rfl, fun k hk => ?_, fun k hk => ?_⟩
    · show _ ∨ ∃ time, (s.lastAlerted.erase keyId).get? a.1 = some time ∧ a.2 ≤ time
      rw [Dict.get?_erase]
      split_ifs with heq
      · left
        rcases h.stamped a ha with hover | ⟨time, htime, hle⟩
        · exact hover
        · have hover := hforget keyId (List.mem_singleton_self _) (List.isEmpty_iff.1 hempty) time
            (heq ▸ htime)
          omega
      · exact h.stamped a ha
    · show (s.observations.erase keyId).get? k = s.observations.get? k
      rw [Dict.get?_erase, if_neg hk]
    · show (s.lastAlerted.erase keyId).get? k = s.lastAlerted.get? k
      rw [Dict.get?_erase, if_neg hk]
  · refine ⟨h.congr rfl rfl, rfl, fun k hk => ?_, fun _ _ => rfl⟩
    exact Dict.get?_set_of_ne _ _ hk

theorem ends_judgeKey (h : CooldownInv config input.now s)
    (hforget : Forgettable config input [keyId] s) :
    Program.Ends (judgeKey config input keyId)
      (fun triggers s' => CooldownInv config input.now s' ∧ Judged keyId s s' ∧
        (triggers = true → Clear config input.now s' keyId))
      (fun _ s' => CooldownInv config input.now s') s := by
  unfold judgeKey
  rw [Program.ends_bind, Program.ends_get, Program.ends_bind]
  refine (ends_keepObserved h hforget).mono ?_ fun _ _ h' => h'.elim
  rintro - s₁ ⟨h₁, hjudged⟩
  rw [Program.ends_bind, Program.ends_get]
  split_ifs with hfew hcooldown
  · exact ⟨h₁, hjudged, fun h => by cases h⟩
  · exact ⟨h₁, hjudged, fun h => by cases h⟩
  · cases input.rowOf keyId with
    | raised => exact h₁
    | missing => exact ⟨h₁, hjudged, fun h => by cases h⟩
    | row active => exact ⟨h₁, hjudged, fun _ => h₁.clear hcooldown⟩

/-- **The loop over the keys.** -/
theorem ends_judgeKeys (h : CooldownInv config input.now s) (hnodup : keyIds.Nodup)
    (hforget : Forgettable config input keyIds s) :
    Program.Ends (judgeKeys config input keyIds)
      (fun triggered s' => CooldownInv config input.now s' ∧ s'.alerts = s.alerts ∧
        triggered.Sublist keyIds ∧ ∀ k ∈ triggered, Clear config input.now s' k)
      (fun _ s' => CooldownInv config input.now s') s := by
  induction keyIds generalizing s with
  | nil => exact ⟨h, rfl, List.nil_sublist _, nofun⟩
  | cons keyId keyIds ih =>
    obtain ⟨hnot, hnodup'⟩ := List.nodup_cons.1 hnodup
    rw [judgeKeys, Program.ends_bind]
    refine (ends_judgeKey h fun k hk => ?_).mono ?_ fun _ _ h' => h'
    · exact hforget k (List.mem_cons.2 (Or.inl (List.mem_singleton.1 hk)))
    · rintro triggers s₁ ⟨h₁, hjudged, htriggers⟩
      have hforget' : Forgettable config input keyIds s₁ := by
        intro k hk
        have hne : k ≠ keyId := by
          rintro rfl
          exact hnot hk
        rw [hjudged.observations k hne, hjudged.lastAlerted k hne]
        exact hforget k (List.mem_cons_of_mem _ hk)
      rw [Program.ends_bind]
      refine (ih h₁ hnodup' hforget').mono ?_ fun _ _ h' => h'
      rintro triggered s₂ ⟨h₂, halerts, hsub, hclear⟩
      refine ⟨h₂, halerts.trans hjudged.alerts, ?_, fun k hk => ?_⟩
      · cases triggers with
        | true => exact hsub.cons_cons keyId
        | false => exact hsub.cons keyId
      · cases triggers with
        | true =>
          rcases List.mem_cons.1 hk with rfl | hk
          · exact (htriggers rfl).congr halerts
          · exact hclear k hk
        | false => exact hclear k hk

theorem keys_nodup (d : Dict ℕ (List (ℤ × Text))) : d.keys.Nodup := d.nodup

theorem ends_checkThresholds (h : CooldownInv config input.now s)
    (hforget : Forgettable config input s.observations.keys s) :
    Program.Ends (checkThresholds config input) (fun _ s' => CooldownInv config input.now s')
      (fun _ s' => CooldownInv config input.now s') s := by
  unfold checkThresholds
  rw [Program.ends_bind, Program.ends_get, Program.ends_bind]
  refine (ends_judgeKeys h (keys_nodup _) hforget).mono ?_ fun _ _ h' => h'
  rintro triggered s' ⟨h', -, hsub, hclear⟩
  exact h'.dispatchAlerts ((keys_nodup _).sublist hsub) hclear

theorem CooldownInv.alertKey (h : CooldownInv config input.now s)
    (hclear : Clear config input.now s keyId) :
    CooldownInv config input.now (alertKey input keyId s) :=
  h.fire (l := []) (List.nodup_singleton _) fun _ hk => List.mem_singleton.1 hk ▸ hclear

theorem CooldownInv.checkOnline {keys : Text → Option ℕ} (h : CooldownInv config input.now s)
    (online : Text × ℕ) : CooldownInv config input.now (checkOnline config input keys s online) := by
  unfold Anomaly.checkOnline
  split_ifs with hfew
  · exact h
  · cases keys online.1 with
    | none => exact h
    | some keyId =>
      show CooldownInv config input.now (if _ then _ else _)
      split_ifs with hcooldown
      · exact h
      · exact h.alertKey (h.clear hcooldown)

theorem CooldownInv.foldl_checkOnline {keys : Text → Option ℕ} (h : CooldownInv config input.now s)
    (l : List (Text × ℕ)) :
    CooldownInv config input.now (l.foldl (Anomaly.checkOnline config input keys) s) := by
  induction l generalizing s with
  | nil => exact h
  | cons online l ih => exact ih (h.checkOnline online)

theorem ends_checkHysteriaOnline (h : CooldownInv config input.now s) :
    Program.Ends (checkHysteriaOnline config input) (fun _ s' => CooldownInv config input.now s')
      (fun _ s' => CooldownInv config input.now s') s := by
  unfold checkHysteriaOnline
  split_ifs
  · exact h
  · cases input.online with
    | none => exact h
    | some online =>
      cases online with
      | nil => exact h
      | cons first online =>
        cases input.hysteria2Keys with
        | none => exact h
        | some keys => exact h.foldl_checkOnline (first :: online)

/-! ### Runs -/

/-- The state in which a scan judges the keys. -/
def collected (config : AnomalyConfig) (input : ScanInput) (s : AnomalySystem) : AnomalySystem :=
  (Program.result (collect config input) s).2

/-- The clock does not run backwards, and the scan finds no key that has lost all its observations while
its stamp is younger than the cooldown. -/
def KeepsStamps (config : AnomalyConfig) (s : AnomalySystem) : AnomalyEvent → Prop
  | .append _ => True
  | .scan input => (∀ time ∈ s.lastScan, time ≤ input.now) ∧
      Forgettable config input (collected config input s).observations.keys (collected config input s)

instance (s : AnomalySystem) : ∀ event, Decidable (KeepsStamps config s event)
  | .append _ => .isTrue trivial
  | .scan _ => inferInstanceAs (Decidable (_ ∧ _))

/-- What the runs keep, at every time from the last scan on. -/
def AlertInv (config : AnomalyConfig) (s : AnomalySystem) : Prop :=
  ∀ now, (∀ time ∈ s.lastScan, time ≤ now) → CooldownInv config now s

theorem ends_collect (h : CooldownInv config input.now s) :
    Program.Ends (collect config input)
      (fun _ s' => CooldownInv config input.now s' ∧ s' = collected config input s)
      (fun _ s' => CooldownInv config input.now s') s := by
  have hinv : Program.Ends (collect config input) (fun _ s' => CooldownInv config input.now s')
      (fun _ s' => CooldownInv config input.now s') s := by
    unfold collect
    rw [Program.ends_bind]
    refine h.evict.mono ?_ fun _ _ h' => h'.elim
    rintro - s₁ h₁
    exact ends_sample.mono (fun _ _ h' => h₁.congr h'.alerts h'.lastAlerted)
      fun _ _ h' => h₁.congr h'.alerts h'.lastAlerted
  exact (hinv.and Program.ends_result_state).mono (fun _ _ h' => h') fun _ _ h' => h'.1

/-- **One scan.** -/
theorem ends_checkAll (h : CooldownInv config input.now s)
    (hforget : Forgettable config input (collected config input s).observations.keys
      (collected config input s)) :
    Program.Ends (checkAll config input) (fun _ s' => CooldownInv config input.now s')
      (fun _ s' => CooldownInv config input.now s') s := by
  unfold checkAll
  rw [Program.ends_bind]
  refine (ends_collect h).mono ?_ fun _ _ h' => h'
  rintro - s₁ ⟨h₁, rfl⟩
  rw [Program.ends_bind]
  refine (ends_checkThresholds h₁ hforget).mono (fun _ s₂ h₂ => ?_) fun _ _ h' => h'
  unfold unlessRemoved
  split_ifs
  · exact h₂
  · exact ends_checkHysteriaOnline h₂

theorem AlertInv.step (h : AlertInv config s) (hkeep : KeepsStamps config s event)
    (hstep : Anomaly.step config s event = some s') : AlertInv config s' := by
  cases event with
  | append line =>
    cases hstep
    exact fun now hnow => (h now hnow).congr rfl rfl
  | scan input =>
    cases hstep
    obtain ⟨hclock, hforget⟩ := hkeep
    have hscan : CooldownInv config input.now (Program.result (checkAll config input) s).2 :=
      (ends_checkAll (h input.now hclock) hforget).result (R := fun _ s' => CooldownInv config input.now s')
    exact fun now hnow => (hscan.later (hnow input.now rfl)).congr rfl rfl

theorem alertInv_initial (log : List LogLine) : AlertInv config (initial log) :=
  fun _ _ => ⟨.nil, nofun, nofun⟩

/-- **The alerts of a key are a cooldown apart**, when each scan keeps the stamps. -/
theorem alerts_apart {log : List LogLine}
    (hkeep : Allowed (step config) (KeepsStamps config) (initial log) events)
    (hrun : runFrom (step config) (initial log) events = some s) :
    Apart config.cooldownSeconds s.alerts := by
  have hinv : AlertInv config s :=
    invariant_of_allowed (fun _ _ _ hinv hallow hstep => hinv.step hallow hstep) (alertInv_initial log)
      hkeep hrun
  exact (hinv (s.lastScan.getD 0) fun time htime => htime ▸ le_rfl).apart

/-! ### Stamps that are forgotten -/

/-- The key connects from three networks. -/
def burst (time : ℤ) : List AnomalyEvent :=
  [['x'], ['y'], ['z']].map fun ip => .append ⟨100, some time, some (ip, ['a'])⟩

/-- The same window with a cooldown of a quarter of an hour. -/
def shortCooldown : AnomalyConfig := { shortWindow with cooldownSeconds := 900 }

/-- The observations of the key are in the window when the cooldown ends. -/
def keptStamp : List AnomalyEvent :=
  burst 10000 ++ [scanAt 10000] ++ burst 10900 ++ [scanAt 10900]

theorem alerts_apart_keptStamp : ∃ s, runFrom (step shortCooldown) (initial []) keptStamp = some s ∧
    s.alerts = [(1, 10000), (1, 10900)] ∧ Apart shortCooldown.cooldownSeconds s.alerts := by
  have halerts : (runFrom (step shortCooldown) (initial []) keptStamp).map AnomalySystem.alerts =
      some [(1, 10000), (1, 10900)] := by decide +kernel
  obtain ⟨s, hrun, hs⟩ := Option.map_eq_some_iff.1 halerts
  exact ⟨s, hrun, hs, alerts_apart (by decide +kernel) hrun⟩

/-- All observations of the key leave the window, and a new burst follows within the cooldown. -/
def forgottenStamp : List AnomalyEvent :=
  burst 10000 ++ [scanAt 10000, scanAt 13601] ++ burst 13700 ++ [scanAt 13901]

/-- A key is alerted twice within an hour and five minutes, with a cooldown of two hours. -/
theorem alerted_twice : ¬ ∀ (config : AnomalyConfig) (log : List LogLine) (events : List AnomalyEvent)
    (s : AnomalySystem), runFrom (step config) (initial log) events = some s →
    Apart config.cooldownSeconds s.alerts := by
  intro h
  have halerts : (runFrom (step shortWindow) (initial []) forgottenStamp).map AnomalySystem.alerts =
      some [(1, 10000), (1, 13901)] := by decide +kernel
  obtain ⟨s, hrun, hs⟩ := Option.map_eq_some_iff.1 halerts
  have hapart := h shortWindow [] forgottenStamp s hrun
  rw [hs] at hapart
  have hnot : ¬ Apart 7200 [(1, 10000), (1, 13901)] := by
    unfold Apart
    decide
  exact hnot hapart

end VpnBot.Anomaly
