import VpnBot.Anomaly.Detection

/-!
# The lines of the access log

A scan reads again what earlier scans have read, and tells the new lines from the old ones by the greatest
timestamp that it has recorded.  Each line is recorded at most once.  A line is recorded when it is read and
no line that was read before has its second or a later one (`Recordable`); `recorded_once_iff` says that
these are the only ones, and `line_lost` is a run in which a line shares its second with an older one.
-/

namespace VpnBot.Anomaly

open Py Sys

variable {config : AnomalyConfig} {input : ScanInput} {s s₁ s' : AnomalySystem} {cutoff : ℤ}
  {keys : Text → Option ℕ} {log : List LogLine} {event : AnomalyEvent} {events : List AnomalyEvent}

/-! ### What a run reads -/

/-- The entries that are not stamped too far in the future. -/
def timely (input : ScanInput) (entries : List LogEntry) : List LogEntry :=
  entries.filter fun entry => entry.timestamp ≤ input.now + XRAY_LOG_FUTURE_SKEW_SECONDS

/-- What a scan reads of the log: nothing when it raises before, or when Xray has been removed, or when the
log cannot be read. -/
def scanReads (config : AnomalyConfig) (log : List LogLine) (input : ScanInput) : List LogEntry :=
  if !input.awgRemoved && input.awgKeys.isNone then []
  else if input.xrayRemoved || !input.logReadable then []
  else
    match input.xrayKeys with
    | none => []
    | some keys => timely input (parseXrayLogTail (input.now - config.windowSeconds) keys log)

def eventReads (config : AnomalyConfig) (log : List LogLine) : AnomalyEvent → List LogEntry
  | .append _ => []
  | .scan input => scanReads config log input

/-- The log after an event. -/
def grow (log : List LogLine) : AnomalyEvent → List LogLine
  | .append line => log ++ [line]
  | .scan _ => log

/-- What the events of a run read of the log, the first event first. -/
def reads (config : AnomalyConfig) : List LogLine → List AnomalyEvent → List (List LogEntry)
  | _, [] => []
  | log, event :: events => eventReads config log event :: reads config (grow log event) events

/-- Some scan has read the line. -/
def Covered (past : List (List LogEntry)) (line : ℕ) : Prop :=
  ∃ scan ∈ past, ∃ entry ∈ scan, entry.line = line

/-- Some scan has read the line, and no line that was read before has its second or a later one. -/
def Recordable (past : List (List LogEntry)) (line : ℕ) : Prop :=
  ∃ earlier scan later, past = earlier ++ scan :: later ∧
    ∃ entry ∈ scan, entry.line = line ∧ 0 < entry.timestamp ∧
      ∀ before ∈ earlier.flatten, before.timestamp < entry.timestamp

theorem recordable_concat {past : List (List LogEntry)} {scan : List LogEntry} {line : ℕ} :
    Recordable (past ++ [scan]) line ↔ Recordable past line ∨
      ∃ entry ∈ scan, entry.line = line ∧ 0 < entry.timestamp ∧
        ∀ before ∈ past.flatten, before.timestamp < entry.timestamp := by
  constructor
  · rintro ⟨earlier, read, later, hsplit, hentry⟩
    rcases List.eq_nil_or_concat later with rfl | ⟨later, last, rfl⟩
    · obtain ⟨rfl, heq⟩ := List.append_inj' hsplit rfl
      obtain rfl := List.singleton_inj.1 heq
      exact Or.inr hentry
    · rw [List.concat_eq_append, ← List.cons_append, ← List.append_assoc] at hsplit
      exact Or.inl ⟨earlier, read, later, (List.append_inj' hsplit rfl).1, hentry⟩
  · rintro (⟨earlier, read, later, rfl, hentry⟩ | hentry)
    · exact ⟨earlier, read, later ++ [scan], by rw [List.append_assoc, List.cons_append], hentry⟩
    · exact ⟨past, scan, [], rfl, hentry⟩

/-! ### The entries and the lines -/

/-- The entry has the timestamp of its line. -/
def OfLine (log : List LogLine) (entry : LogEntry) : Prop :=
  ∃ line, log[entry.line]? = some line ∧ line.timestamp = some entry.timestamp

theorem OfLine.append (line : LogLine) {entry : LogEntry} (h : OfLine log entry) :
    OfLine (log ++ [line]) entry := by
  obtain ⟨l, hl, htime⟩ := h
  refine ⟨l, ?_, htime⟩
  rw [List.getElem?_append_left (List.getElem?_eq_some_iff.1 hl).1]
  exact hl

theorem OfLine.timestamp_eq {entry entry' : LogEntry} (h : OfLine log entry) (h' : OfLine log entry')
    (hline : entry.line = entry'.line) : entry.timestamp = entry'.timestamp := by
  obtain ⟨l, hl, htime⟩ := h
  obtain ⟨l', hl', htime'⟩ := h'
  rw [hline, hl'] at hl
  obtain rfl := Option.some.inj hl
  exact Option.some.inj (htime.symm.trans htime')

theorem mem_positions {n offset : ℕ} {p : ℕ × ℕ × LogLine} (h : p ∈ positions n offset log) :
    n ≤ p.1 ∧ log[p.1 - n]? = some p.2.2 := by
  induction log generalizing n offset with
  | nil => cases h
  | cons line log ih =>
    rcases List.mem_cons.1 h with rfl | hmem
    · exact ⟨le_rfl, by simp⟩
    · obtain ⟨hle, hget⟩ := ih hmem
      refine ⟨by omega, ?_⟩
      rw [show p.1 - n = p.1 - (n + 1) + 1 by omega]
      exact hget

theorem pairwise_positions (n offset : ℕ) :
    (positions n offset log).Pairwise fun p q => p.1 < q.1 := by
  induction log generalizing n offset with
  | nil => exact .nil
  | cons line log ih =>
    refine List.pairwise_cons.2 ⟨fun p hp => ?_, ih _ _⟩
    have hle := (mem_positions hp).1
    show n < p.1
    omega

theorem mem_logTail {p : ℕ × LogLine} (h : p ∈ logTail log) : log[p.1]? = some p.2 := by
  obtain ⟨q, hq, rfl⟩ := List.mem_map.1 h
  exact (mem_positions (List.mem_of_mem_filter hq)).2

theorem pairwise_logTail : (logTail log).Pairwise fun p q => p.1 < q.1 :=
  List.pairwise_map.2 ((pairwise_positions 0 0).filter _)

theorem of_entryOf {line : ℕ × LogLine} {entry : LogEntry} (h : entryOf cutoff keys line = some entry) :
    entry.line = line.1 ∧ line.2.timestamp = some entry.timestamp := by
  unfold entryOf at h
  obtain ⟨timestamp, htime, h⟩ := Option.bind_eq_some_iff.1 h
  split_ifs at h
  obtain ⟨origin, -, h⟩ := Option.bind_eq_some_iff.1 h
  obtain ⟨keyId, -, h⟩ := Option.bind_eq_some_iff.1 h
  cases h
  exact ⟨rfl, htime⟩

theorem ofLine_of_mem_parse {entry : LogEntry} (h : entry ∈ parseXrayLogTail cutoff keys log) :
    OfLine log entry := by
  obtain ⟨line, hline, hentry⟩ := List.mem_filterMap.1 h
  obtain ⟨hnumber, htime⟩ := of_entryOf hentry
  exact ⟨line.2, hnumber ▸ mem_logTail hline, htime⟩

theorem nodup_parse : ((parseXrayLogTail cutoff keys log).map LogEntry.line).Nodup := by
  refine List.pairwise_map.2 (List.pairwise_filterMap.2 (pairwise_logTail.imp ?_))
  intro p q hlt entry hentry entry' hentry'
  rw [(of_entryOf hentry).1, (of_entryOf hentry').1]
  exact hlt.ne

theorem ofLine_of_mem_scanReads {entry : LogEntry} (h : entry ∈ scanReads config log input) :
    OfLine log entry := by
  unfold scanReads at h
  split_ifs at h with hraised hskipped
  · cases h
  · cases h
  · cases hkeys : input.xrayKeys with
    | none =>
      rw [hkeys] at h
      cases h
    | some keys =>
      rw [hkeys] at h
      exact ofLine_of_mem_parse (List.mem_of_mem_filter h)

theorem nodup_scanReads : ((scanReads config log input).map LogEntry.line).Nodup := by
  unfold scanReads
  split_ifs
  · exact .nil
  · exact .nil
  · cases input.xrayKeys with
    | none => exact .nil
    | some keys => exact nodup_parse.sublist (List.filter_sublist.map _)

/-! ### One scan -/

/-- What recording concerns: the log, the lines recorded and the greatest timestamp. -/
def ingestion (s : AnomalySystem) : List LogLine × List ℕ × ℤ := (s.log, s.recorded, s.highWater)

/-- The entries of a scan that are recorded. -/
def unread (highWater : ℤ) (scan : List LogEntry) : List LogEntry :=
  scan.filter fun entry => highWater < entry.timestamp

/-- What a scan records of what it reads. -/
structure Ingested (scan : List LogEntry) (s s' : AnomalySystem) : Prop where
  log : s'.log = s.log
  recorded : s'.recorded = s.recorded ++ (unread s.highWater scan).map LogEntry.line
  highWater : s'.highWater = ((unread s.highWater scan).map LogEntry.timestamp).foldl max s.highWater

theorem ingestion_recordIp (keyId : ℕ) (time : ℤ) (ip : Text) :
    ingestion (recordIp input keyId time ip s) = ingestion s := by
  unfold recordIp
  split_ifs
  · rfl
  · rfl

theorem unread_timely (highWater : ℤ) (entries : List LogEntry) :
    unread highWater (timely input entries) = entries.filter fun entry =>
      ¬ (entry.timestamp ≤ highWater ∨ input.now + XRAY_LOG_FUTURE_SKEW_SECONDS < entry.timestamp) := by
  unfold unread timely
  rw [List.filter_filter]
  refine List.filter_congr fun entry _ => ?_
  simp only [not_or, not_le, not_lt, Bool.decide_and]

theorem ingest_of_skip {previous : ℤ} {entry : LogEntry}
    (h : entry.timestamp ≤ previous ∨ input.now + XRAY_LOG_FUTURE_SKEW_SECONDS < entry.timestamp) :
    ingest input previous s entry = s := if_pos h

theorem ingest_of_not_skip {previous : ℤ} {entry : LogEntry}
    (h : ¬ (entry.timestamp ≤ previous ∨ input.now + XRAY_LOG_FUTURE_SKEW_SECONDS < entry.timestamp)) :
    (ingest input previous s entry).log = s.log ∧
      (ingest input previous s entry).recorded = s.recorded ++ [entry.line] ∧
      (ingest input previous s entry).highWater = max s.highWater entry.timestamp := by
  have hrecord : ingestion (recordIp input entry.keyId entry.timestamp entry.ip s) = ingestion s :=
    ingestion_recordIp _ _ _
  obtain ⟨hlog, hpair⟩ := Prod.mk.inj hrecord
  obtain ⟨hrecorded, hwater⟩ := Prod.mk.inj hpair
  unfold ingest
  rw [if_neg h, ← hlog, ← hrecorded, ← hwater]
  exact ⟨rfl, rfl, rfl⟩

theorem ingested_foldl (previous : ℤ) (entries : List LogEntry) :
    (entries.foldl (ingest input previous) s).log = s.log ∧
      (entries.foldl (ingest input previous) s).recorded =
        s.recorded ++ (unread previous (timely input entries)).map LogEntry.line ∧
      (entries.foldl (ingest input previous) s).highWater =
        ((unread previous (timely input entries)).map LogEntry.timestamp).foldl max s.highWater := by
  rw [unread_timely]
  induction entries generalizing s with
  | nil => exact ⟨rfl, (List.append_nil _).symm, rfl⟩
  | cons entry entries ih =>
    rw [List.foldl_cons]
    obtain ⟨hlog, hrecorded, hwater⟩ := ih (s := ingest input previous s entry)
    by_cases hskip : entry.timestamp ≤ previous ∨
        input.now + XRAY_LOG_FUTURE_SKEW_SECONDS < entry.timestamp
    · rw [ingest_of_skip hskip] at hlog hrecorded hwater ⊢
      rw [List.filter_cons, if_neg fun hfresh => (of_decide_eq_true hfresh) hskip]
      exact ⟨hlog, hrecorded, hwater⟩
    · obtain ⟨hlog₁, hrecorded₁, hwater₁⟩ := ingest_of_not_skip (s := s) hskip
      rw [List.filter_cons, if_pos (decide_eq_true hskip)]
      refine ⟨hlog.trans hlog₁, ?_, ?_⟩
      · rw [hrecorded, hrecorded₁, List.map_cons, List.append_assoc, List.singleton_append]
      · rw [hwater, hwater₁, List.map_cons, List.foldl_cons]

theorem keeps_sampleAwgEndpoints : Program.Keeps ingestion (sampleAwgEndpoints input) := by
  unfold sampleAwgEndpoints
  cases input.awgKeys with
  | none => exact Program.keeps_throw _
  | some keys =>
    refine Program.keeps_modify fun s => ?_
    induction input.awgEndpoints.getD [] generalizing s with
    | nil => rfl
    | cons endpoint endpoints ih =>
      rw [List.foldl_cons, ih]
      cases keys endpoint.1 with
      | none => rfl
      | some keyId =>
        show ingestion (if endpoint.2 = [] then s else _) = _
        split_ifs
        · rfl
        · exact ingestion_recordIp _ _ _

theorem keeps_judgeKey (keyId : ℕ) : Program.Keeps ingestion (judgeKey config input keyId) := by
  unfold judgeKey
  refine Program.keeps_get.bind fun s => Program.Keeps.bind ?_ fun _ => Program.keeps_get.bind fun s' => ?_
  · unfold keepObserved
    split_ifs
    · exact Program.keeps_modify fun _ => rfl
    · exact Program.keeps_modify fun _ => rfl
  · split_ifs
    · exact Program.keeps_pure _
    · exact Program.keeps_pure _
    · cases input.rowOf keyId with
      | raised => exact Program.keeps_throw _
      | missing => exact Program.keeps_pure _
      | row active => exact Program.keeps_pure _

theorem keeps_judgeKeys (keyIds : List ℕ) : Program.Keeps ingestion (judgeKeys config input keyIds) := by
  induction keyIds with
  | nil => exact Program.keeps_pure _
  | cons keyId keyIds ih =>
    exact (keeps_judgeKey keyId).bind fun _ => ih.bind fun _ => Program.keeps_pure _

theorem foldl_keeps {α γ : Type} {f : AnomalySystem → α → AnomalySystem} {g : AnomalySystem → γ}
    (hf : ∀ s a, g (f s a) = g s) (l : List α) : g (l.foldl f s) = g s := by
  induction l generalizing s with
  | nil => rfl
  | cons a l ih => exact ih.trans (hf s a)

theorem keeps_checkThresholds : Program.Keeps ingestion (checkThresholds config input) := by
  unfold checkThresholds
  refine Program.keeps_get.bind fun s => (keeps_judgeKeys _).bind fun triggered => ?_
  refine Program.keeps_modify fun s => ?_
  have hbundle : ∀ s bundleId, ingestion (alertBundle input triggered bundleId s) = ingestion s :=
    fun _ _ => rfl
  have hkey : ∀ s keyId, ingestion (alertKey input keyId s) = ingestion s := fun _ _ => rfl
  exact (foldl_keeps hbundle _).trans (foldl_keeps hkey _)

theorem keeps_checkHysteriaOnline {γ : Type} {g : AnomalySystem → γ}
    (hkey : ∀ s keyId, g (alertKey input keyId s) = g s) :
    Program.Keeps g (checkHysteriaOnline config input) := by
  unfold checkHysteriaOnline
  split_ifs
  · exact Program.keeps_pure _
  · cases input.online with
    | none => exact Program.keeps_pure _
    | some online =>
      cases online with
      | nil => exact Program.keeps_pure _
      | cons first online =>
        cases input.hysteria2Keys with
        | none => exact Program.keeps_throw _
        | some keys =>
          refine Program.keeps_modify fun s => foldl_keeps (fun s online => ?_) _
          unfold checkOnline
          split_ifs
          · rfl
          · cases keys online.1 with
            | none => rfl
            | some keyId =>
              show g (if _ then _ else _) = _
              split_ifs
              · rfl
              · exact hkey s keyId

/-- Nothing is read, so nothing is recorded. -/
theorem ingested_nil (h : ingestion s' = ingestion s) : Ingested [] s s' := by
  obtain ⟨hlog, hpair⟩ := Prod.mk.inj h
  obtain ⟨hrecorded, hwater⟩ := Prod.mk.inj hpair
  exact ⟨hlog, hrecorded.trans (List.append_nil _).symm, hwater⟩

theorem Ingested.congr {scan : List LogEntry} {t : AnomalySystem} (h : Ingested scan s₁ s')
    (hbefore : ingestion s₁ = ingestion s) (hafter : ingestion t = ingestion s') : Ingested scan s t := by
  obtain ⟨hlog, hpair⟩ := Prod.mk.inj hbefore
  obtain ⟨hrecorded, hwater⟩ := Prod.mk.inj hpair
  obtain ⟨hlog', hpair'⟩ := Prod.mk.inj hafter
  obtain ⟨hrecorded', hwater'⟩ := Prod.mk.inj hpair'
  refine ⟨hlog'.trans (h.log.trans hlog), ?_, ?_⟩
  · rw [hrecorded', h.recorded, hrecorded, hwater]
  · rw [hwater', h.highWater, hwater]

theorem ends_awgPass :
    Program.Ends (unlessRemoved input.awgRemoved (sampleAwgEndpoints input))
      (fun _ s' => ingestion s' = ingestion s ∧ (!input.awgRemoved && input.awgKeys.isNone) = false)
      (fun _ s' => ingestion s' = ingestion s ∧ (!input.awgRemoved && input.awgKeys.isNone) = true) s := by
  unfold unlessRemoved
  cases hremoved : input.awgRemoved with
  | true => exact ⟨rfl, rfl⟩
  | false =>
    have hkeeps : Program.Ends (sampleAwgEndpoints input) (fun _ s' => ingestion s' = ingestion s)
        (fun _ s' => ingestion s' = ingestion s) s := keeps_sampleAwgEndpoints s
    rw [if_neg Bool.false_ne_true]
    cases hkeys : input.awgKeys with
    | none =>
      unfold sampleAwgEndpoints
      rw [hkeys]
      exact ⟨rfl, rfl⟩
    | some keys =>
      unfold sampleAwgEndpoints at hkeeps ⊢
      rw [hkeys] at hkeeps ⊢
      exact ⟨hkeeps, rfl⟩

theorem ends_xrayPass (hraised : (!input.awgRemoved && input.awgKeys.isNone) = false) :
    Program.Ends (unlessRemoved input.xrayRemoved (sampleXrayLog config input))
      (fun _ s' => Ingested (scanReads config s.log input) s s')
      (fun _ s' => Ingested (scanReads config s.log input) s s') s := by
  unfold unlessRemoved sampleXrayLog scanReads
  rw [hraised, if_neg Bool.false_ne_true]
  cases input.xrayRemoved with
  | true => exact ingested_nil rfl
  | false =>
    cases input.xrayKeys with
    | none =>
      rw [ite_self]
      exact ingested_nil rfl
    | some keys =>
      cases input.logReadable with
      | false => exact ingested_nil rfl
      | true =>
        obtain ⟨hlog, hrecorded, hwater⟩ := ingested_foldl s.highWater
          (parseXrayLogTail (input.now - config.windowSeconds) keys s.log)
        exact ⟨hlog, hrecorded, hwater⟩

/-- **What one scan records.** -/
theorem ends_checkAll_ingested :
    Program.Ends (checkAll config input) (fun _ s' => Ingested (scanReads config s.log input) s s')
      (fun _ s' => Ingested (scanReads config s.log input) s s') s := by
  have hjudge : Program.Keeps ingestion (do
      checkThresholds config input
      unlessRemoved input.hysteria2Removed (checkHysteriaOnline config input)) := by
    refine keeps_checkThresholds.bind fun _ => ?_
    unfold unlessRemoved
    split_ifs
    · exact Program.keeps_pure _
    · exact keeps_checkHysteriaOnline fun _ _ => rfl
  unfold checkAll collect sample evictStaleLastAlerted
  rw [Program.ends_bind, Program.ends_bind, Program.ends_modify, Program.ends_bind]
  refine ends_awgPass.mono (fun _ s₁ h₁ => ?_) fun _ s₁ h₁ => ?_
  · have hlog : s₁.log = s.log := congrArg Prod.fst h₁.1
    have hxray : Program.Ends (unlessRemoved input.xrayRemoved (sampleXrayLog config input))
        (fun _ s' => Ingested (scanReads config s₁.log input) s₁ s')
        (fun _ s' => Ingested (scanReads config s₁.log input) s₁ s') s₁ := ends_xrayPass h₁.2
    rw [hlog] at hxray
    refine hxray.mono (fun _ s₂ h₂ => ?_) fun _ s₂ h₂ => h₂.congr h₁.1 rfl
    exact (hjudge s₂).mono (fun _ _ h₃ => h₂.congr h₁.1 h₃) fun _ _ h₃ => h₂.congr h₁.1 h₃
  · unfold scanReads
    rw [if_pos h₁.2]
    exact ingested_nil h₁.1

/-! ### Runs -/

theorem foldl_max_spec (l : List ℤ) (a : ℤ) :
    a ≤ l.foldl max a ∧ (∀ b ∈ l, b ≤ l.foldl max a) ∧ (l.foldl max a = a ∨ l.foldl max a ∈ l) := by
  induction l generalizing a with
  | nil => exact ⟨le_rfl, nofun, Or.inl rfl⟩
  | cons b l ih =>
    obtain ⟨hstart, hall, hattained⟩ := ih (max a b)
    rw [List.foldl_cons]
    refine ⟨(le_max_left a b).trans hstart, fun c hc => ?_, ?_⟩
    · rcases List.mem_cons.1 hc with rfl | hc
      · exact (le_max_right a c).trans hstart
      · exact hall c hc
    · rcases hattained with heq | hmem
      · rcases max_choice a b with hmax | hmax
        · exact Or.inl (heq.trans hmax)
        · exact Or.inr (List.mem_cons.2 (Or.inl (heq.trans hmax)))
      · exact Or.inr (List.mem_cons_of_mem _ hmem)

/-- What the runs keep, when the scans have read `past`. -/
structure ReadInv (past : List (List LogEntry)) (s : AnomalySystem) : Prop where
  lines : ∀ entry ∈ past.flatten, OfLine s.log entry
  below : ∀ entry ∈ past.flatten, entry.timestamp ≤ s.highWater
  nonneg : 0 ≤ s.highWater
  attained : s.highWater = 0 ∨ ∃ entry ∈ past.flatten, entry.timestamp = s.highWater
  nodup : s.recorded.Nodup
  recorded : ∀ line, line ∈ s.recorded ↔ Recordable past line

variable {past : List (List LogEntry)}

theorem ReadInv.highWater_lt (h : ReadInv past s) {time : ℤ} :
    s.highWater < time ↔ 0 < time ∧ ∀ before ∈ past.flatten, before.timestamp < time := by
  constructor
  · intro hlt
    exact ⟨h.nonneg.trans_lt hlt, fun before hbefore => (h.below before hbefore).trans_lt hlt⟩
  · rintro ⟨hpos, hbefore⟩
    rcases h.attained with hzero | ⟨entry, hentry, heq⟩
    · exact hzero ▸ hpos
    · exact heq ▸ hbefore entry hentry

theorem ReadInv.ingest {scan : List LogEntry} (h : ReadInv past s) (hscan : Ingested scan s s')
    (hlines : ∀ entry ∈ scan, OfLine s.log entry) (hnodup : (scan.map LogEntry.line).Nodup) :
    ReadInv (past ++ [scan]) s' := by
  obtain ⟨hstart, hall, hattained⟩ := foldl_max_spec
    ((unread s.highWater scan).map LogEntry.timestamp) s.highWater
  rw [← hscan.highWater] at hstart hall hattained
  have hflatten : (past ++ [scan]).flatten = past.flatten ++ scan := by
    rw [List.flatten_append, List.flatten_singleton]
  refine ⟨fun entry hentry => ?_, fun entry hentry => ?_, h.nonneg.trans hstart, ?_, ?_, fun line => ?_⟩
  · rw [hscan.log]
    rw [hflatten] at hentry
    rcases List.mem_append.1 hentry with hold | hnew
    · exact h.lines entry hold
    · exact hlines entry hnew
  · rw [hflatten] at hentry
    rcases List.mem_append.1 hentry with hold | hnew
    · exact (h.below entry hold).trans hstart
    · by_cases hlt : s.highWater < entry.timestamp
      · exact hall _ (List.mem_map_of_mem (List.mem_filter.2 ⟨hnew, decide_eq_true hlt⟩))
      · exact (not_lt.1 hlt).trans hstart
  · rw [hflatten]
    rcases hattained with hsame | hmem
    · rw [hsame]
      refine h.attained.imp_right ?_
      rintro ⟨entry, hentry, heq⟩
      exact ⟨entry, List.mem_append_left _ hentry, heq⟩
    · obtain ⟨entry, hentry, heq⟩ := List.mem_map.1 hmem
      exact Or.inr ⟨entry, List.mem_append_right _ (List.mem_of_mem_filter hentry), heq⟩
  · rw [hscan.recorded]
    refine List.nodup_append'.2 ⟨h.nodup, hnodup.sublist (List.filter_sublist.map _), ?_⟩
    intro line hold hnew
    obtain ⟨entry, hentry, rfl⟩ := List.mem_map.1 hnew
    obtain ⟨hmem, hlt⟩ := List.mem_filter.1 hentry
    -- a line that is recorded has been read, so its timestamp is not above the mark
    obtain ⟨earlier, read, later, hsplit, entry', hentry', hline, -⟩ := (h.recorded entry.line).1 hold
    have hread : entry' ∈ past.flatten := by
      rw [hsplit]
      exact List.mem_flatten.2 ⟨read, by simp, hentry'⟩
    have hbelow := h.below entry' hread
    rw [(h.lines entry' hread).timestamp_eq (hlines entry hmem) hline] at hbelow
    exact absurd (of_decide_eq_true hlt) (not_lt.2 hbelow)
  · rw [hscan.recorded, recordable_concat, List.mem_append, h.recorded]
    refine or_congr_right ?_
    constructor
    · intro hmem
      obtain ⟨entry, hentry, hline⟩ := List.mem_map.1 hmem
      obtain ⟨hread, hlt⟩ := List.mem_filter.1 hentry
      exact ⟨entry, hread, hline, h.highWater_lt.1 (of_decide_eq_true hlt)⟩
    · rintro ⟨entry, hread, hline, hnew⟩
      have hlt : s.highWater < entry.timestamp := h.highWater_lt.2 hnew
      exact List.mem_map.2 ⟨entry, List.mem_filter.2 ⟨hread, decide_eq_true hlt⟩, hline⟩

theorem ReadInv.step (h : ReadInv past s) (hstep : Anomaly.step config s event = some s') :
    ReadInv (past ++ [eventReads config s.log event]) s' ∧ s'.log = grow s.log event := by
  cases event with
  | append line =>
    cases hstep
    refine ⟨?_, rfl⟩
    have hsame := h.ingest (ingested_nil rfl) nofun .nil
    exact ⟨fun entry hentry => (hsame.lines entry hentry).append line, hsame.below, hsame.nonneg,
      hsame.attained, hsame.nodup, hsame.recorded⟩
  | scan input =>
    cases hstep
    have hscan : Ingested (scanReads config s.log input) s (Program.result (checkAll config input) s).2 :=
      ends_checkAll_ingested.result (R := fun _ s' => Ingested (scanReads config s.log input) s s')
    exact ⟨h.ingest (hscan.congr rfl rfl) (fun _ => ofLine_of_mem_scanReads) nodup_scanReads, hscan.log⟩

theorem ReadInv.run (h : ReadInv past s) (hrun : runFrom (Anomaly.step config) s events = some s') :
    ReadInv (past ++ reads config s.log events) s' := by
  induction events generalizing past s with
  | nil =>
    cases hrun
    rw [reads, List.append_nil]
    exact h
  | cons event events ih =>
    obtain ⟨m, hm, hrun⟩ := runFrom_cons.1 hrun
    obtain ⟨hinv, hlog⟩ := h.step hm
    have htail := ih hinv hrun
    rw [hlog, List.append_assoc, List.singleton_append] at htail
    exact htail

theorem readInv_initial (log : List LogLine) : ReadInv [] (initial log) := by
  refine ⟨nofun, nofun, le_rfl, Or.inl rfl, .nil, fun line => ?_⟩
  refine iff_of_false List.not_mem_nil ?_
  rintro ⟨earlier, scan, later, hsplit, -⟩
  exact nomatch (List.append_eq_nil_iff.1 hsplit.symm).2

/-- **The lines that a run records**: none twice, and one exactly when it is read before all others of its
second and of later ones. -/
theorem recorded_once_iff (hrun : runFrom (step config) (initial log) events = some s) (line : ℕ) :
    s.recorded.count line ≤ 1 ∧
      (s.recorded.count line = 1 ↔ Recordable (reads config log events) line) := by
  have hinv : ReadInv (reads config log events) s := (readInv_initial log).run hrun
  refine ⟨List.nodup_iff_count_le_one.1 hinv.nodup line, ?_⟩
  rw [← hinv.recorded line]
  constructor
  · intro hcount
    exact List.count_pos_iff.1 (hcount ▸ Nat.one_pos)
  · exact List.count_eq_one_of_mem hinv.nodup

/-- A line of the key, another one of the same second, and one of a later second. -/
def repeatedSecond : List AnomalyEvent :=
  [.append ⟨100, some 10000, some (['x'], ['a'])⟩, scanAt 10000,
    .append ⟨100, some 10000, some (['y'], ['a'])⟩, .append ⟨100, some 10001, some (['z'], ['a'])⟩, scanAt 10010]

theorem recorded_once_iff_repeatedSecond :
    ∃ s, runFrom (step shortWindow) (initial []) repeatedSecond = some s ∧
      (s.recorded.count 2 = 1 ↔ Recordable (reads shortWindow [] repeatedSecond) 2) := by
  have hrun : runFrom (step shortWindow) (initial []) repeatedSecond = some _ := rfl
  exact ⟨_, hrun, (recorded_once_iff hrun 2).2⟩

/-- The second line of a second is read and not recorded. -/
theorem line_lost : ¬ ∀ (config : AnomalyConfig) (log : List LogLine) (events : List AnomalyEvent)
    (s : AnomalySystem) (line : ℕ), runFrom (step config) (initial log) events = some s →
    Covered (reads config log events) line → s.recorded.count line = 1 := by
  intro h
  have hrecorded : (runFrom (step shortWindow) (initial []) repeatedSecond).map AnomalySystem.recorded =
      some [0, 2] := by decide +kernel
  obtain ⟨s, hrun, hs⟩ := Option.map_eq_some_iff.1 hrecorded
  have hread : reads shortWindow [] repeatedSecond =
      [[], [⟨0, 1, ['x'], 10000⟩], [], [],
        [⟨0, 1, ['x'], 10000⟩, ⟨1, 1, ['y'], 10000⟩, ⟨2, 1, ['z'], 10001⟩]] := by decide +kernel
  have hcovered : Covered (reads shortWindow [] repeatedSecond) 1 := by
    rw [hread]
    exact ⟨_, List.mem_of_getElem? (i := 4) rfl, _, List.mem_of_getElem? (i := 1) rfl, rfl⟩
  have hcount := h shortWindow [] repeatedSecond s 1 hrun hcovered
  rw [hs] at hcount
  exact absurd hcount (by decide)

end VpnBot.Anomaly
