import VpnBot.Awg.DirectPeers
import VpnBot.Awg.PeerScan
import VpnBot.Python.ContentLines

/-!
# Error atomicity in direct mode

`add_peer` and `remove_peer` leave the peer in the right place when they return, and all as it was when they raise an
error that does not say that the rollback has failed, exactly when the calls are answered as `AddRight` and
`RemoveRight` say (`atomic_iff_right`).

The rollback counts the exceptions of its steps only.  A removal that ends badly without an exception goes
unnoticed (`addNewPeer_stays`), a removal that succeeds takes away a peer that has been in the runtime
before, and `syncconf` brings the peers of the config and not those that the runtime has had.
-/

namespace VpnBot.Awg

open Py Sys Program

/-! ### Peers in a config -/

def AwgSection.IsPeer (sec : AwgSection) (publicKey : Text) : Prop :=
  sec.name = "Peer".toList ∧ sec.options.get? publicKeyOption = some publicKey

/-- The config has a section of the peer. -/
def HasPeer (config publicKey : Text) : Prop :=
  ∃ sections, parseSections config = .ok sections ∧ ∃ sec ∈ sections, sec.IsPeer publicKey

/-- What stands behind a line break is split on its own. -/
theorem exists_splitlines_append (t u : Text) :
    ∃ l ls, splitlines (t ++ '\n' :: u) = l :: ls ++ splitlines u := by
  induction t with
  | nil => exact ⟨[], [], splitlines_append_newline (by simp) u⟩
  | cons c t ih =>
    obtain ⟨l, ls, ih⟩ := ih
    rw [List.cons_append, splitlines]
    split_ifs with hreturn hbreak
    · exact ⟨l, ls, ih⟩
    · exact ⟨[], l :: ls, by rw [ih]; rfl⟩
    · rw [ih]
      exact ⟨c :: l, ls, rfl⟩

theorem parseSections_universalNewlines (t : Text) :
    parseSections (Warp.universalNewlines t) = parseSections t := by
  rw [parseSections, parseSections, Warp.splitlines_universalNewlines]

variable {publicKey : Text}

theorem addOption_keeps {options options' : Options} {raw : Text}
    (h : addOption "Peer".toList options raw = .ok options')
    (hkey : options.get? publicKeyOption = some publicKey) :
    options'.get? publicKeyOption = some publicKey := by
  unfold addOption at h
  cases hoption : optionOf (strip raw) with
  | none =>
    rw [hoption] at h
    cases h
    exact hkey
  | some option =>
    obtain ⟨key, value⟩ := option
    have hsection : "Peer".toList ≠ "Interface".toList := by decide
    simp only [hoption, rejectDuplicateCriticalKey, if_neg hsection] at h
    split at h
    · cases h
    · rename_i hcritical
      cases h
      have hne : publicKeyOption ≠ key := by
        intro heq
        have hlisted : CRITICAL_PEER_KEYS.contains publicKeyOption = true := by decide
        rw [← heq, hlisted, Dict.contains, hkey] at hcritical
        exact hcritical rfl
      rw [Dict.get?_set_of_ne _ _ hne, hkey]

variable {c : AddCall} {wroteConfig : Bool} {sections sections' : List AwgSection}

/-- A critical option is not given again, so that a peer that has been read stays. -/
theorem parseLine_keeps {raw : Text}
    (h : parseLine sections raw = .ok sections') (hpeer : ∃ sec ∈ sections, sec.IsPeer publicKey) :
    ∃ sec ∈ sections', sec.IsPeer publicKey := by
  obtain ⟨sec, hmem, hname, hkey⟩ := hpeer
  unfold parseLine at h
  dsimp only at h
  split at h
  · split at h
    · cases h
      exact ⟨sec, List.mem_cons_of_mem _ hmem, hname, hkey⟩
    · cases h
  · cases sections with
    | nil => cases hmem
    | cons current done =>
      cases hoptions : addOption current.name current.options raw with
      | error e =>
        simp only [hoptions] at h
        cases h
      | ok options =>
        simp only [hoptions] at h
        cases h
        rcases List.mem_cons.mp hmem with rfl | hmem
        · rw [hname] at hoptions
          exact ⟨_, List.mem_cons_self, hname, addOption_keeps hoptions hkey⟩
        · exact ⟨sec, List.mem_cons_of_mem _ hmem, hname, hkey⟩

theorem foldlM_parseLine_keeps {lines : List Text}
    (h : lines.foldlM parseLine sections = .ok sections')
    (hpeer : ∃ sec ∈ sections, sec.IsPeer publicKey) : ∃ sec ∈ sections', sec.IsPeer publicKey := by
  induction lines generalizing sections with
  | nil =>
    cases h
    exact hpeer
  | cons line lines ih =>
    rw [List.foldlM_cons] at h
    cases hline : parseLine sections line with
    | error e =>
      rw [hline] at h
      cases h
    | ok read =>
      rw [hline] at h
      exact ih h (parseLine_keeps hline hpeer)

theorem foldlM_append_eq_ok {lines lines' : List Text}
    (h : (lines ++ lines').foldlM parseLine sections = .ok sections') :
    ∃ read, lines.foldlM parseLine sections = .ok read ∧ lines'.foldlM parseLine read = .ok sections' := by
  rw [List.foldlM_append] at h
  cases hread : lines.foldlM parseLine sections with
  | error e =>
    rw [hread] at h
    cases h
  | ok read =>
    rw [hread] at h
    exact ⟨read, rfl, h⟩

theorem strip_publicKey_line (hspace : ∀ c ∈ publicKey, isSpace c = false) (hne : publicKey ≠ []) :
    strip ("PublicKey = ".toList ++ publicKey) = "PublicKey = ".toList ++ publicKey := by
  refine strip_of_ends (fun c hc => ?_) fun c hc => ?_
  · rw [List.head?_append_of_ne_nil _ (by decide)] at hc
    rw [← Option.mem_some.mp (show c ∈ some 'P' from hc)]
    decide
  · rw [List.getLast?_append_of_ne_nil _ hne] at hc
    exact hspace c (List.mem_of_getLast? hc)

theorem optionOf_publicKey_line (hspace : ∀ c ∈ publicKey, isSpace c = false) :
    optionOf ("PublicKey = ".toList ++ publicKey) = some (publicKeyOption, publicKey) := by
  have hsplit : splitOnce '=' ("PublicKey = ".toList ++ publicKey) =
      some ("PublicKey ".toList, ' ' :: publicKey) :=
    splitOnce_append (t := "PublicKey ".toList) (by decide) (' ' :: publicKey)
  have hcontent : (("PublicKey = ".toList ++ publicKey).isEmpty ||
      isComment ("PublicKey = ".toList ++ publicKey)) = false := rfl
  have hname : strip "PublicKey ".toList = publicKeyOption := by decide
  rw [optionOf, hcontent, if_neg Bool.false_ne_true, hsplit, Option.map_some, hname,
    strip_cons_of_isSpace (by decide), strip_eq_self hspace]

theorem exists_parseLine_publicKey (hspace : ∀ c ∈ publicKey, isSpace c = false) (hne : publicKey ≠ [])
    (lines : List Text) (done : List AwgSection) :
    ∃ sec, parseLine (⟨"Peer".toList, lines, Dict.empty⟩ :: done) ("PublicKey = ".toList ++ publicKey) =
      .ok (sec :: done) ∧ sec.IsPeer publicKey := by
  refine ⟨⟨"Peer".toList, lines ++ ["PublicKey = ".toList ++ publicKey],
    Dict.set Dict.empty publicKeyOption publicKey⟩, ?_, rfl, Dict.get?_set_self _ _ _⟩
  rw [parseLine]
  simp only [addOption, strip_publicKey_line hspace hne, optionOf_publicKey_line hspace]
  rfl

theorem hasPeer_of_lines {t u : Text} {sections : List AwgSection}
    (hkey : validateWireguardKey publicKey = true)
    (h : parseSections (t ++ '\n' :: ("[Peer]".toList ++ '\n' ::
      ("PublicKey = ".toList ++ publicKey ++ '\n' :: u))) = .ok sections) :
    ∃ sec ∈ sections, sec.IsPeer publicKey := by
  have hne : publicKey ≠ [] := by
    rintro rfl
    exact absurd hkey (by decide)
  have hspace : ∀ c ∈ publicKey, isSpace c = false := by
    intro c hc
    unfold validateWireguardKey hasControlOrSpace at hkey
    simp only [Bool.and_eq_true, Bool.not_eq_true', List.any_eq_false, Bool.or_eq_true, not_or] at hkey
    simpa using (hkey.2 c hc).1.1
  have hbreak : ∀ c ∈ "PublicKey = ".toList ++ publicKey, isLineBreak c = false := by
    intro c hc
    rcases List.mem_append.mp hc with hname | hc
    · exact forall_mem_of_all (by decide +kernel) c hname
    · by_contra hbreak
      rw [Bool.not_eq_false] at hbreak
      exact absurd (isSpace_of_isLineBreak hbreak) (by rw [hspace c hc]; decide)
  have hheader := splitlines_append_newline (l := "[Peer]".toList)
    (forall_mem_of_all (by decide +kernel))
    ("PublicKey = ".toList ++ publicKey ++ '\n' :: u)
  obtain ⟨l, ls, hlines⟩ := exists_splitlines_append t ("[Peer]".toList ++ '\n' ::
      ("PublicKey = ".toList ++ publicKey ++ '\n' :: u))
  rw [hheader, splitlines_append_newline hbreak] at hlines
  unfold parseSections at h
  rw [hlines] at h
  cases hfold : (l :: ls ++ "[Peer]".toList :: ("PublicKey = ".toList ++ publicKey) :: splitlines u).foldlM
      parseLine [] with
  | error e =>
    rw [hfold] at h
    cases h
  | ok read =>
    obtain ⟨before, -, hafter⟩ := foldlM_append_eq_ok hfold
    have hpeer : ∃ sec ∈ read, sec.IsPeer publicKey := by
      obtain ⟨sec, hsec, hpeer⟩ := exists_parseLine_publicKey hspace hne ["[Peer]".toList] before
      rw [List.foldlM_cons, parseLine_peer (by decide)] at hafter
      simp only [bind, Except.bind, List.foldlM_cons, hsec] at hafter
      exact foldlM_parseLine_keeps hafter ⟨sec, List.mem_cons_self, hpeer⟩
    rw [hfold] at h
    simp only [bind, Except.bind] at h
    split at h
    · cases h
      simpa using hpeer
    · cases h

theorem join_cons_cons (c : Char) (t u : Text) (l : List Text) :
    join c (t :: u :: l) = t ++ c :: join c (u :: l) := by
  simp [join, List.intercalate]

theorem join_three (t u v : Text) {l l' : List Text} (hne : l' ≠ []) :
    join '\n' ([t, u, v] ++ l ++ l') = t ++ '\n' :: (u ++ '\n' :: (v ++ '\n' :: join '\n' (l ++ l'))) := by
  obtain ⟨w, ws, hw⟩ : ∃ w ws, l ++ l' = w :: ws := List.exists_cons_of_ne_nil (by simp [hne])
  rw [List.append_assoc, hw]
  simp only [List.cons_append, List.nil_append, join_cons_cons]

theorem hasPeer_of_appended {original updated : Text} {sections : List AwgSection}
    (hkey : validateWireguardKey c.publicKey = true) (h : c.appended original = .ok updated)
    (hparse : parseSections updated = .ok sections) : HasPeer updated c.publicKey := by
  refine ⟨sections, hparse, ?_⟩
  unfold AddCall.appended AddCall.peerBlock at h
  dsimp only at h
  split_ifs at h with hlabel
  · cases h
  · simp only [bind, Except.bind, pure, Except.pure, Except.ok.injEq] at h
    subst h
    rw [join_three _ _ _ (by simp), ← List.append_assoc] at hparse
    exact hasPeer_of_lines hkey hparse

theorem isSome_findPeer (ip : Ipaddress) (sections : List AwgSection) (hne : publicKey ≠ []) :
    (findPeer ip sections (some publicKey) none).isSome = true ↔ ∃ sec ∈ sections, sec.IsPeer publicKey := by
  simp [findPeer, AwgSection.IsPeer, List.find?_isSome, hne]

/-! ### The steps -/

variable {a : Answers} {s : Server} {t : Frame} {site : Site} {flags : Flags}

section Rules

variable {α : Type} {P : α → Server → Prop} {Q : Text → Server → Prop}

@[simp] theorem ends_guardSite {P : Unit → Server → Prop} :
    Ends (guardSite a site) P Q s ↔ (a.raises site = true → Q a.text s) ∧ (a.raises site = false → P () s) := by
  unfold guardSite
  cases a.raises site <;> simp

@[simp] theorem ends_ofResult {r : Except Text α} :
    Ends (ofResult r) P Q s ↔ (∀ x, r = .ok x → P x s) ∧ ∀ e, r = .error e → Q e s := ends_ofExcept _

@[simp] theorem ends_readText {P : Text → Server → Prop} :
    Ends (readText a site) P Q s ↔ (a.raises site = true → Q a.text s) ∧
      (a.raises site = false → P (Warp.universalNewlines s.config) s) := by
  simp only [readText, ends_bind, ends_guardSite, ends_get, ends_pure]

@[simp] theorem ends_onServer {p : Program Server Text α} {P : α → Frame → Prop}
    {Q : Text → Frame → Prop} :
    Ends (onServer p) P Q t ↔ Ends p (fun x s => P x (s, t.2)) (fun e s => Q e (s, t.2)) t.1 := ends_zoom

@[simp] theorem ends_outsideTry {p : Program Server Text α} {Q : Failure → Server → Prop} :
    Ends (outsideTry p) P Q s ↔ Ends p P (fun e s => Q ⟨[], e, []⟩ s) s := ends_zoom

end Rules

section Frames

variable {P : Unit → Frame → Prop} {Q : Text → Frame → Prop}

@[simp] theorem ends_setWroteConfig :
    Ends setWroteConfig P Q t ↔ P () (t.1, { t.2 with wroteConfig := true }) := ends_modify _

@[simp] theorem ends_setRuntime {value : Bool} :
    Ends (setRuntime value) P Q t ↔ P () (t.1, { t.2 with runtime := value }) := ends_modify _

end Frames

theorem ends_tryBody {body : Program Frame Text Unit} {handler : Text → Flags → Program Server Failure Unit}
    {P : Unit → Server → Prop} {Q : Failure → Server → Prop} :
    Ends (tryBody body handler) P Q s ↔
      Ends body (fun _ t => P () t.1) (fun e t => Ends (handler e t.2) P Q t.1) (s, ⟨false, false⟩) := by
  unfold Ends tryBody
  cases body (s, ⟨false, false⟩) <;> exact Iff.rfl

/-- The command takes effect. -/
def Answer.Effective (answer : Answer) : Prop := answer.ends = .ok ∨ answer.took = true

instance (answer : Answer) : Decidable answer.Effective := inferInstanceAs (Decidable (_ ∨ _))

/-- What a command makes of the server. -/
def Answer.apply (answer : Answer) (effect : Server → Server) (s : Server) : Server :=
  if answer.Effective then effect s else s

theorem ends_change {answer : Answer} {text : Text} {effect : Server → Server} {P : Bool → Server → Prop}
    {Q : Text → Server → Prop} :
    Ends (change answer text effect) P Q s ↔
      (answer.ends = .raised → Q text (answer.apply effect s)) ∧
      (answer.ends = .failed → P false (answer.apply effect s)) ∧
      (answer.ends = .ok → P true (answer.apply effect s)) := by
  unfold change Answer.apply Answer.Effective
  obtain ⟨ends, took⟩ := answer
  cases ends <;> simp

theorem ends_checkRuntimePeer {site : ShowSite} {P : Bool → Server → Prop} {Q : Text → Server → Prop} :
    Ends (checkRuntimePeer a site publicKey) P Q s ↔
      (a.shown site = .raised → Q a.text s) ∧
      (a.shown site ≠ .raised → P (a.shown site = .printed false && s.peers publicKey) s) := by
  unfold checkRuntimePeer
  rcases a.shown site with (_ | _) | _ | _ <;> simp

/-! ### The rollback -/

variable {context primary backup : Text} {s₀ : Server}

theorem silent_iff (hprimary : ¬rollbackWords <:+: primary) {steps : List Text} :
    Failure.Silent ⟨context, primary, steps⟩ ↔ steps = [] := by
  unfold Failure.Silent Failure.text
  by_cases hsteps : steps = []
  · simp [hsteps, hprimary]
  · simp only [hsteps, if_false, iff_false, not_not]
    exact ⟨context ++ ": ".toList ++ primary ++ "; ".toList,
      ": ".toList ++ List.intercalate ", ".toList steps, by simp only [List.append_assoc]⟩

theorem ends_rollbackStep {needed : Bool} {p : Program Server Text Unit} {P : Bool → Server → Prop}
    {Q : Text → Server → Prop} :
    Ends (rollbackStep needed p) P Q s ↔
      (needed = true → Ends p (fun _ => P true) (fun _ => P false) s) ∧ (needed = false → P true s) := by
  unfold rollbackStep
  cases needed <;> simp

/-- The old config is back, if it has been written over. -/
def backInPlace (backup : Text) (wroteConfig : Bool) (s : Server) : Server :=
  if wroteConfig then { s with config := backup } else s

/-- What `_rollback_add_peer` leaves when no step raises. -/
def addRolledBack (a : Answers) (publicKey backup : Text) (flags : Flags) (s : Server) : Server :=
  let s := backInPlace backup flags.wroteConfig s
  if flags.runtime then a.remove.apply (Server.without publicKey) s else s

/-- What `_rollback_remove_peer` leaves when no step raises. -/
def removeRolledBack (a : Answers) (backup : Text) (flags : Flags) (s : Server) : Server :=
  let s := backInPlace backup flags.wroteConfig s
  if flags.runtime then { s with peers := a.synced s.config } else s

theorem ends_addExcept (hprimary : ¬rollbackWords <:+: primary) {P : Unit → Server → Prop} :
    Ends (addExcept c a backup primary flags) P (fun f s' => f.Silent → s' = s₀) s ↔
      ((flags.wroteConfig = true → a.restore = none) → (flags.runtime = true → a.remove.ends ≠ .raised) →
        addRolledBack a c.publicKey backup flags s = s₀) := by
  obtain ⟨wroteConfig, runtime⟩ := flags
  simp only [addExcept, ends_bind, ends_outsideTry, rollbackAddPeer, ends_rollbackStep, restoreConfig, ends_call,
    removePeerRuntime, ends_change, ends_pure, ends_throw, silent_iff hprimary, addRolledBack, backInPlace]
  cases wroteConfig <;> cases runtime <;> rcases a.restore with _ | (_ | _) <;>
    cases a.remove.ends <;> simp

theorem not_silent (hprimary : rollbackWords <:+: primary) (steps : List Text) :
    ¬Failure.Silent ⟨context, primary, steps⟩ := by
  unfold Failure.Silent Failure.text
  rw [not_not]
  dsimp only
  split_ifs
  · exact hprimary
  · obtain ⟨u, v, rfl⟩ := hprimary
    exact ⟨context ++ ": ".toList ++ u, v ++ "; ".toList ++ rollbackWords ++ ": ".toList ++
      List.intercalate ", ".toList steps, by simp only [List.append_assoc]⟩

theorem ends_removeExcept (hprimary : ¬rollbackWords <:+: primary) {P : Unit → Server → Prop} :
    Ends (removeExcept a backup primary flags) P (fun f s' => f.Silent → s' = s₀) s ↔
      ((flags.wroteConfig = true → a.restore = none) → (flags.runtime = true → a.sync = none) →
        removeRolledBack a backup flags s = s₀) := by
  obtain ⟨wroteConfig, runtime⟩ := flags
  simp only [removeExcept, ends_bind, ends_outsideTry, rollbackRemovePeer, ends_rollbackStep, restoreConfig,
    ends_call, syncRuntime, ends_pure, ends_throw, silent_iff hprimary, removeRolledBack, backInPlace]
  cases wroteConfig <;> cases runtime <;> rcases a.restore with _ | (_ | _) <;>
    rcases a.sync with _ | (_ | _) <;> simp

theorem ends_removeExcept_of_words (hprimary : rollbackWords <:+: primary) {P : Unit → Server → Prop} :
    Ends (removeExcept a backup primary flags) P (fun f s' => f.Silent → s' = s₀) s := by
  obtain ⟨wroteConfig, runtime⟩ := flags
  simp only [removeExcept, ends_bind, ends_outsideTry, rollbackRemovePeer, ends_rollbackStep, restoreConfig,
    ends_call, syncRuntime, ends_pure, ends_throw, not_silent hprimary]
  cases wroteConfig <;> cases runtime <;> rcases a.restore with _ | (_ | _) <;>
    rcases a.sync with _ | (_ | _) <;> simp

/-- An exception before anything has changed. -/
theorem ends_addExcept_untouched {P : Unit → Server → Prop} :
    Ends (addExcept c a backup primary ⟨false, false⟩) P (fun f s' => f.Silent → s' = s) s := by
  simp only [addExcept, rollbackAddPeer, ends_bind, ends_outsideTry, ends_rollbackStep, ends_pure, ends_throw]
  exact ⟨fun h => (by cases h), fun _ => ⟨fun h => (by cases h), fun _ _ => trivial⟩⟩

theorem ends_removeExcept_untouched {P : Unit → Server → Prop} :
    Ends (removeExcept a backup primary ⟨false, false⟩) P (fun f s' => f.Silent → s' = s) s := by
  simp only [removeExcept, rollbackRemovePeer, ends_bind, ends_outsideTry, ends_rollbackStep, ends_pure,
    ends_throw]
  exact ⟨fun h => (by cases h), fun _ => ⟨fun h => (by cases h), fun _ _ => trivial⟩⟩

/-! ### Up to the `try` -/

/-- The calls before the `try` and the two first ones in it go well. -/
structure Opens (a : Answers) : Prop where
  lock : a.raises .lock = false
  active : ∃ cut, a.shown .active = .printed cut
  snapshot : a.raises .snapshot = false
  createBackup : a.raises .createBackup = false
  read : a.raises .read = false
  unchanged : a.raises .unchanged = false

theorem ends_openConfig {interface : Text} {P : Text → Server → Prop} {Q : Failure → Server → Prop}
    (hQ : ∀ f, Q f s) :
    Ends (openConfig a interface) P Q s ↔
      (a.raises .lock = false → (∃ cut, a.shown .active = .printed cut) → a.raises .snapshot = false →
        a.raises .createBackup = false → P s.config s) := by
  have hactive (P : Unit → Server → Prop) (Q : Text → Server → Prop) (hQ : ∀ e, Q e s) :
      Ends (ensureInterfaceActive a interface) P Q s ↔ ((∃ cut, a.shown .active = .printed cut) → P () s) := by
    unfold ensureInterfaceActive
    rcases a.shown .active with cut | _ | _ <;> simp [hQ]
  simp only [openConfig, ends_bind, ends_outsideTry, ends_guardSite]
  rw [hactive _ _ fun e => hQ _]
  simp [hQ]

theorem mapError_eq_ok_iff {α ε ε' : Type} {r : Except ε α} {f : ε → ε'} {x : α} :
    r.mapError f = .ok x ↔ r = .ok x := by
  cases r with
  | ok y => simp [Except.mapError]
  | error e => simp [Except.mapError]

theorem ends_validateCandidateConfig {u : Text} {P : Unit → Server → Prop} {Q : Text → Server → Prop}
    (hQ : ∀ e, Q e s) :
    Ends (validateCandidateConfig a u) P Q s ↔
      ((∃ sections, parseSections u = .ok sections) → a.raises .strip = false → P () s) := by
  simp [validateCandidateConfig, mapError_eq_ok_iff, hQ]

/-- The new config passes the checks before it is written. -/
structure Candidate (a : Answers) (updated : Text) : Prop where
  parses : ∃ sections, parseSections updated = .ok sections
  strip : a.raises .strip = false
  unchangedAgain : a.raises .unchangedAgain = false

/-! ### Adding -/

/-- The peer is in the config and in the runtime. -/
def Server.Has (s : Server) (publicKey : Text) : Prop :=
  HasPeer s.config publicKey ∧ s.peers publicKey = true

/-- `add_peer` leaves the peer in the config and in the runtime when it returns, and all as it was when it
raises an error that does not say that the rollback has failed. -/
def AddAtomic (c : AddCall) (a : Answers) (s : Server) : Prop :=
  Ends (addPeer c a) (fun _ s' => s'.Has c.publicKey) (fun f s' => f.Silent → s' = s) s

/-- The two commands on the runtime leave it as it was. -/
def RuntimePutBack (a : Answers) (publicKey : Text) (s : Server) : Prop :=
  (a.remove.Effective → s.peers publicKey = false) ∧
    (¬a.remove.Effective → a.set.Effective → s.peers publicKey = true)

theorem runtimePutBack_iff :
    a.remove.apply (Server.without publicKey) (a.set.apply (Server.withPeer publicKey) s) = s ↔
      RuntimePutBack a publicKey s := by
  obtain ⟨config, peers⟩ := s
  unfold RuntimePutBack Answer.apply
  by_cases hremove : a.remove.Effective
  · by_cases hset : a.set.Effective <;>
      simp [hremove, hset, Server.without, Server.withPeer, eq_comm (a := false)]
  · by_cases hset : a.set.Effective <;> simp [hremove, hset, Server.withPeer, eq_comm (a := true)]

/-- What `add_peer` answers when its block is in the config: the exceptions that are raised before the
runtime is touched leave all as it was. -/
def PresentRight (c : AddCall) (a : Answers) (s : Server) : Prop :=
  a.shown .before ≠ .raised →
    if a.shown .before = .printed false ∧ s.peers c.publicKey = true ∨ a.set.ends = .ok then
      HasPeer s.config c.publicKey
    else a.remove.ends ≠ .raised → RuntimePutBack a c.publicKey s

theorem ends_addToRuntime {message : Text} {t : Frame} {P : Unit → Frame → Prop}
    {Q : Text → Frame → Prop} :
    Ends (addToRuntime c a message) P Q t ↔
      let t' : Frame := (a.set.apply (Server.withPeer c.publicKey) t.1, { t.2 with runtime := true })
      (a.set.ends = .raised → Q a.text t') ∧ (a.set.ends = .failed → Q message t') ∧
        (a.set.ends = .ok → P () t') := by
  simp [addToRuntime, addPeerRuntime, ends_change]

/-- How the `try` of `add_peer` may end. -/
def AddTry (c : AddCall) (a : Answers) (s : Server) (body : Program Frame Text Unit) (t : Frame) : Prop :=
  Ends body (fun _ t => t.1.Has c.publicKey)
    (fun e t => Ends (addExcept c a s.config e t.2) (fun _ s' => s'.Has c.publicKey)
      (fun f s' => f.Silent → s' = s) t.1) t

theorem backInPlace_set {t : Server} (hpeers : t.peers = s.peers)
    (hconfig : wroteConfig = false → t.config = s.config) :
    backInPlace s.config wroteConfig (a.set.apply (Server.withPeer publicKey) t) =
      a.set.apply (Server.withPeer publicKey) s := by
  obtain ⟨config, peers⟩ := t
  obtain rfl : peers = s.peers := hpeers
  unfold Answer.apply backInPlace
  cases wroteConfig with
  | true => by_cases hset : a.set.Effective <;> simp [hset, Server.withPeer]
  | false =>
    obtain rfl : config = s.config := hconfig rfl
    rfl

theorem has_set_iff {t : Server} (hset : a.set.ends = .ok) :
    (a.set.apply (Server.withPeer publicKey) t).Has publicKey ↔ HasPeer t.config publicKey := by
  have heffective : a.set.Effective := .inl hset
  simp [Answer.apply, heffective, Server.Has, Server.withPeer]

theorem addTry_addToRuntime_iff {message : Text} {t : Frame}
    (hmessage : ¬rollbackWords <:+: message) (hpeers : t.1.peers = s.peers)
    (hconfig : t.2.wroteConfig = false → t.1.config = s.config) :
    AddTry c a s (addToRuntime c a message) t ↔
      if a.set.ends = .ok then HasPeer t.1.config c.publicKey
      else (t.2.wroteConfig = true → a.restore = none) → a.remove.ends ≠ .raised →
        RuntimePutBack a c.publicKey s := by
  have hback : addRolledBack a c.publicKey s.config { t.2 with runtime := true }
      (a.set.apply (Server.withPeer c.publicKey) t.1) = s ↔ RuntimePutBack a c.publicKey s := by
    rw [← runtimePutBack_iff, addRolledBack, backInPlace_set hpeers hconfig]
    rfl
  unfold AddTry
  rw [ends_addToRuntime]
  dsimp only
  rw [ends_addExcept a.quiet, ends_addExcept hmessage, hback]
  cases hset : a.set.ends with
  | ok => simp [has_set_iff hset]
  | failed => simp
  | raised => simp

theorem addTry_addPresent_iff :
    AddTry c a s (addPresent c a) (s, ⟨false, false⟩) ↔ PresentRight c a s := by
  have hmessage : ¬rollbackWords <:+: "AWG peer есть в config, но не применён в runtime".toList := by
    decide +kernel
  have hadd := addTry_addToRuntime_iff (c := c) (t := (s, ⟨false, false⟩)) (a := a) hmessage rfl fun _ => rfl
  unfold AddTry at *
  unfold addPresent PresentRight
  simp only [ends_bind, ends_onServer, ends_checkRuntimePeer]
  refine (and_iff_right fun _ => ends_addExcept_untouched).trans (imp_congr_right fun _ => ?_)
  by_cases hfound : a.shown .before = .printed false ∧ s.peers c.publicKey = true
  · have hverified : (decide (a.shown .before = .printed false) && s.peers c.publicKey) = true := by
      simp [hfound]
    rw [hverified]
    simp [hfound, Server.Has]
  · have hverified : (decide (a.shown .before = .printed false) && s.peers c.publicKey) = false := by
      simpa using hfound
    rw [hverified]
    simp only [hfound, false_or]
    exact hadd.trans (by simp)

/-- What `add_peer` answers when it writes a config with a new block. -/
def AppendedRight (c : AddCall) (a : Answers) (s : Server) (updated : Text) : Prop :=
  a.write = some .before ∨ a.write = some .after ∧ updated = s.config ∨ a.write = none ∧
    (a.set.ends = .ok ∧ a.shown .after = .printed false ∨
      (a.restore = none → a.remove.ends ≠ .raised → RuntimePutBack a c.publicKey s))

theorem addTry_written_iff {updated : Text} (message message' : Text)
    (hpeer : HasPeer updated c.publicKey) (hmessage : ¬rollbackWords <:+: message)
    (hmessage' : ¬rollbackWords <:+: message') :
    AddTry c a s
      (do
        setWroteConfig
        addToRuntime c a message
        if !(← onServer (checkRuntimePeer a .after c.publicKey)) then throw message')
      ({ s with config := updated }, ⟨false, false⟩) ↔
    a.set.ends = .ok ∧ a.shown .after = .printed false ∨
      (a.restore = none → a.remove.ends ≠ .raised → RuntimePutBack a c.publicKey s) := by
  have hplace : backInPlace s.config true
      (a.set.apply (Server.withPeer c.publicKey) { s with config := updated }) =
        a.set.apply (Server.withPeer c.publicKey) s :=
    backInPlace_set rfl fun h : true = false => nomatch h
  have hback : addRolledBack a c.publicKey s.config ⟨true, true⟩
      (a.set.apply (Server.withPeer c.publicKey) { s with config := updated }) = s ↔
        RuntimePutBack a c.publicKey s := by
    rw [← runtimePutBack_iff, addRolledBack, hplace]
    rfl
  unfold AddTry
  simp only [ends_bind, ends_setWroteConfig, ends_addToRuntime, ends_onServer, ends_checkRuntimePeer]
  rw [ends_addExcept a.quiet, ends_addExcept hmessage, hback]
  cases hset : a.set.ends with
  | failed => simp
  | raised => simp
  | ok =>
    have hpeers : (a.set.apply (Server.withPeer c.publicKey) { s with config := updated }).peers c.publicKey =
        true := by
      have heffective : a.set.Effective := .inl hset
      simp [Answer.apply, heffective, Server.withPeer]
    rw [hpeers, Bool.and_true]
    cases hshown : a.shown .after with
    | raised => simp
    | failed =>
      simp only [reduceCtorEq, decide_false, Bool.not_false, if_true, ends_throw]
      rw [ends_addExcept hmessage', hback]
      simp
    | printed cut =>
      cases cut with
      | false => simp [has_set_iff hset, hpeer]
      | true =>
        have hcut : decide (Shown.printed true = .printed false) = false := rfl
        simp only [hcut, Bool.not_false, if_true, ends_throw]
        rw [ends_addExcept hmessage', hback]
        simp

theorem addTry_addAppended_iff (original : Text) (hkey : validateWireguardKey c.publicKey = true) :
    AddTry c a s (addAppended c a original) (s, ⟨false, false⟩) ↔
      ∀ updated, c.appended original = .ok updated → Candidate a updated → AppendedRight c a s updated := by
  have huntouched (e : Text) : Ends (addExcept c a s.config e ⟨false, false⟩)
      (fun _ s' => s'.Has c.publicKey) (fun f s' => f.Silent → s' = s) s := ends_addExcept_untouched
  unfold AddTry addAppended
  rw [ends_bind, ends_onServer, ends_ofResult]
  refine (and_iff_left fun e _ => huntouched e).trans
    (forall_congr' fun updated => imp_congr_right fun happended => ?_)
  have hwrite (hparses : ∃ sections, parseSections updated = .ok sections) :
      AddTry c a s
        (do
          onServer (writeConfig a updated)
          setWroteConfig
          addToRuntime c a "Не удалось применить AWG peer в runtime".toList
          if !(← onServer (checkRuntimePeer a .after c.publicKey)) then
            throw "AWG peer добавлен командой, но не найден в runtime".toList) (s, ⟨false, false⟩) ↔
      AppendedRight c a s updated := by
    obtain ⟨sections, hparse⟩ := hparses
    have hwritten := addTry_written_iff (a := a) (s := s) "Не удалось применить AWG peer в runtime".toList
      "AWG peer добавлен командой, но не найден в runtime".toList
      (hasPeer_of_appended hkey happended hparse) (by decide +kernel) (by decide +kernel)
    unfold AddTry AppendedRight at *
    rw [ends_bind, ends_onServer, writeConfig, ends_call]
    rcases a.write with _ | (_ | _)
    · exact hwritten.trans (by simp)
    · exact iff_of_true (huntouched _) (.inl rfl)
    · dsimp only
      rw [ends_addExcept a.quiet]
      simp [addRolledBack, backInPlace, Server.ext_iff]
  rw [ends_bind, ends_onServer, ends_validateCandidateConfig huntouched, ends_bind, ends_onServer,
    ends_guardSite]
  constructor
  · rintro h ⟨hparses, hstrip, hagain⟩
    exact (hwrite hparses).mp ((h hparses hstrip).2 hagain)
  · intro h hparses hstrip
    exact ⟨fun _ => huntouched _, fun hagain => (hwrite hparses).mpr (h ⟨hparses, hstrip, hagain⟩)⟩

/-! ### The whole of `add_peer` -/

theorem ends_addBody_iff (hkey : validateWireguardKey c.publicKey = true) :
    AddTry c a s (addBody c a) (s, ⟨false, false⟩) ↔
      (a.raises .read = false → a.raises .unchanged = false →
        ∀ sections, parseSections s.config = .ok sections →
          if managedBlockExists (Warp.universalNewlines s.config) c.keyId then PresentRight c a s
          else (findPeer c.ip sections (some c.publicKey) (some c.clientIp)).isSome = false →
            ∀ updated, c.appended (Warp.universalNewlines s.config) = .ok updated → Candidate a updated →
              AppendedRight c a s updated) := by
  have huntouched (e : Text) : Ends (addExcept c a s.config e ⟨false, false⟩)
      (fun _ s' => s'.Has c.publicKey) (fun f s' => f.Silent → s' = s) s := ends_addExcept_untouched
  have hpresent := addTry_addPresent_iff (c := c) (a := a) (s := s)
  have happended := addTry_addAppended_iff (a := a) (s := s) (Warp.universalNewlines s.config) hkey
  unfold AddTry at *
  unfold addBody
  rw [ends_bind, ends_onServer, ends_readText]
  refine (and_iff_right fun _ => huntouched _).trans (imp_congr_right fun _ => ?_)
  rw [ends_bind, ends_onServer, ends_guardSite]
  refine (and_iff_right fun _ => huntouched _).trans (imp_congr_right fun _ => ?_)
  rw [ends_bind, ends_onServer, ends_ofResult]
  refine (and_iff_left fun e _ => huntouched e).trans (forall_congr' fun sections => ?_)
  rw [mapError_eq_ok_iff, parseSections_universalNewlines]
  refine imp_congr_right fun _ => ?_
  split_ifs with hmanaged hfound
  · exact hpresent
  · exact iff_of_true (huntouched _) fun h => absurd hfound (by rw [h]; exact Bool.false_ne_true)
  · exact happended.trans ⟨fun h _ => h, fun h => h (by simpa using hfound)⟩

theorem validateWireguardKey_of_checkKey {field key : Text} (h : checkKey field (some key) = .ok ()) :
    validateWireguardKey key = true := by
  unfold checkKey at h
  split_ifs at h with hkey
  exact hkey

theorem validateWireguardKey_of_check (h : c.check = .ok ()) :
    validateWireguardKey c.publicKey = true := by
  unfold AddCall.check at h
  cases hkey : checkKey "AWG public_key".toList (some c.publicKey) with
  | ok _ => exact validateWireguardKey_of_checkKey hkey
  | error e =>
    rw [hkey] at h
    cases h

/-- What `add_peer` must be answered. -/
def AddRight (c : AddCall) (a : Answers) (s : Server) : Prop :=
  c.check = .ok () → Opens a → ∀ sections, parseSections s.config = .ok sections →
    if managedBlockExists (Warp.universalNewlines s.config) c.keyId then PresentRight c a s
    else (findPeer c.ip sections (some c.publicKey) (some c.clientIp)).isSome = false →
      ∀ updated, c.appended (Warp.universalNewlines s.config) = .ok updated → Candidate a updated →
        AppendedRight c a s updated

theorem addAtomic_iff (c : AddCall) (a : Answers) (s : Server) : AddAtomic c a s ↔ AddRight c a s := by
  have hprelude (f : Failure) : f.Silent → s = s := fun _ => rfl
  unfold AddAtomic addPeer
  rw [ends_bind, ends_outsideTry, ends_ofResult]
  refine (and_iff_left fun e _ _ => rfl).trans ⟨fun h hcheck hopens => ?_, fun h _ hcheck => ?_⟩
  · have hbody := h () hcheck
    rw [ends_bind, ends_openConfig hprelude] at hbody
    have htry := hbody hopens.lock hopens.active hopens.snapshot hopens.createBackup
    rw [ends_tryBody] at htry
    exact (ends_addBody_iff (validateWireguardKey_of_check hcheck)).mp htry hopens.read hopens.unchanged
  · rw [ends_bind, ends_openConfig hprelude]
    intro hlock hactive hsnapshot hbackup
    rw [ends_tryBody]
    exact (ends_addBody_iff (validateWireguardKey_of_check hcheck)).mpr fun hread hunchanged =>
      h hcheck ⟨hlock, hactive, hsnapshot, hbackup, hread, hunchanged⟩

/-! ### Removing -/

/-- The peer is neither in the config nor in the runtime; without a key, no peer that has gone from the config
is in the runtime. -/
def Gone (c : RemoveCall) (s s' : Server) : Prop :=
  match c.publicKey with
  | some publicKey => ¬HasPeer s'.config publicKey ∧ s'.peers publicKey = false
  | none => ∀ publicKey, HasPeer s.config publicKey → ¬HasPeer s'.config publicKey → s'.peers publicKey = false

/-- `remove_peer` leaves the peer neither in the config nor in the runtime when it returns, and all as it was
when it raises an error that does not say that the rollback has failed. -/
def RemoveAtomic (c : RemoveCall) (a : Answers) (s : Server) : Prop :=
  Ends (removePeer c a) (fun _ s' => Gone c s s') (fun f s' => f.Silent → s' = s) s

/-- How the `try` of `remove_peer` may end. -/
def RemoveTry (c : RemoveCall) (a : Answers) (s : Server) (body : Program Frame Text Unit) (t : Frame) : Prop :=
  Ends body (fun _ t => Gone c s t.1)
    (fun e t => Ends (removeExcept a s.config e t.2) (fun _ s' => Gone c s s')
      (fun f s' => f.Silent → s' = s) t.1) t

/-- The check of the config after the removal does not find the peer, or its error has the words itself. -/
def NotFound (a : Answers) (config publicKey : Text) : Prop :=
  a.shown .after ≠ .raised ∧ a.raises .readBack = false ∧
    (∀ sections, parseSections config = .ok sections → ¬∃ sec ∈ sections, sec.IsPeer publicKey) ∧
    ∀ e, parseSections config = .error e → rollbackWords <:+: e.message

/-- What the removal from the runtime is answered, from a config that has been written or not. -/
def RemovalRight (a : Answers) (s : Server) (publicKey : Text) (wroteConfig : Bool) (config : Text) : Prop :=
  if a.remove.ends = .ok then
    NotFound a config publicKey ∨
      ((wroteConfig = true → a.restore = none) → a.sync = none → a.synced s.config = s.peers)
  else (wroteConfig = true → a.restore = none) → a.remove.took = true → s.peers publicKey = false

theorem not_hasPeer_iff {config : Text} {sections : List AwgSection}
    (h : parseSections config = .ok sections) :
    ¬HasPeer config publicKey ↔ ¬∃ sec ∈ sections, sec.IsPeer publicKey := by
  refine not_congr ⟨?_, fun hpeer => ⟨sections, h, hpeer⟩⟩
  rintro ⟨sections', h', hpeer⟩
  obtain rfl : sections = sections' := Except.ok.inj (h.symm.trans h')
  exact hpeer

theorem removeRolledBack_removed {t : Server} (hpeers : t.peers = s.peers)
    (hconfig : wroteConfig = false → t.config = s.config) :
    removeRolledBack a s.config ⟨wroteConfig, false⟩ (a.remove.apply (Server.without publicKey) t) = s ↔
      (a.remove.Effective → s.peers publicKey = false) := by
  obtain ⟨config, peers⟩ := t
  obtain rfl : peers = s.peers := hpeers
  obtain ⟨config', peers⟩ := s
  unfold removeRolledBack backInPlace Answer.apply
  cases wroteConfig with
  | true =>
    by_cases hremove : a.remove.Effective <;> simp [hremove, Server.without, eq_comm (a := false)]
  | false =>
    obtain rfl : config = config' := hconfig rfl
    by_cases hremove : a.remove.Effective <;> simp [hremove, Server.without, eq_comm (a := false)]

theorem removeRolledBack_synced {t : Server} (hconfig : wroteConfig = false → t.config = s.config) :
    removeRolledBack a s.config ⟨wroteConfig, true⟩ t = s ↔ a.synced s.config = s.peers := by
  unfold removeRolledBack backInPlace
  cases wroteConfig with
  | true => simp [Server.ext_iff]
  | false => simp [Server.ext_iff, hconfig rfl]

theorem removeTry_checkConfig_iff {c : RemoveCall} {t : Server} (message : Text)
    (hmessage : ¬rollbackWords <:+: message) (hkey : c.publicKey = some publicKey)
    (hne : publicKey ≠ [])
    (hpeers : t.peers publicKey = false) (hconfig : wroteConfig = false → t.config = s.config)
    (hshown : a.shown .after ≠ .raised) :
    RemoveTry c a s (checkConfig c a publicKey message) (t, ⟨wroteConfig, true⟩) ↔
    NotFound a t.config publicKey ∨
      ((wroteConfig = true → a.restore = none) → a.sync = none → a.synced s.config = s.peers) := by
  unfold RemoveTry NotFound checkConfig
  rw [ends_bind, ends_onServer, ends_readText, ends_removeExcept a.quiet,
    removeRolledBack_synced hconfig]
  cases hread : a.raises .readBack with
  | true => simp
  | false =>
    rw [ends_bind, ends_onServer, ends_ofResult, parseSections_universalNewlines]
    cases hparse : parseSections t.config with
    | error e =>
      have hmap : (Except.error e : Except AwgConfigError (List AwgSection)).mapError
        AwgConfigError.message = .error e.message := rfl
      by_cases he : rollbackWords <:+: e.message
      · simp [hmap, hshown, he, ends_removeExcept_of_words he]
      · simp [hmap, he, ends_removeExcept he, removeRolledBack_synced hconfig]
    | ok sections =>
      have hgone : Gone c s t ↔ ¬∃ sec ∈ sections, sec.IsPeer publicKey := by
        unfold Gone
        rw [hkey]
        simp [not_hasPeer_iff hparse, hpeers]
      have hmap : (Except.ok sections : Except AwgConfigError (List AwgSection)).mapError
        AwgConfigError.message = .ok sections := rfl
      have hfind := isSome_findPeer c.ip sections hne
      simp only [hmap, Except.ok.injEq, forall_eq', reduceCtorEq, false_imp_iff, implies_true, and_true]
      rw [← hfind] at hgone ⊢
      cases hfound : (findPeer c.ip sections (some publicKey) none).isSome with
      | true => simp [ends_removeExcept hmessage, removeRolledBack_synced hconfig]
      | false => simp [hgone, hfound, hshown]

theorem ends_insist {p : Program Server Text Bool} {message : Text} {P : Unit → Frame → Prop}
    {Q : Text → Frame → Prop} :
    Ends (insist p message) P Q t ↔
      Ends p (fun b s' => if b then P () (s', t.2) else Q message (s', t.2)) (fun e s' => Q e (s', t.2)) t.1 := by
  unfold insist
  rw [ends_bind, ends_onServer]
  refine ⟨fun h => h.mono (fun b s' hb => ?_) fun _ _ he => he,
    fun h => h.mono (fun b s' hb => ?_) fun _ _ he => he⟩
  all_goals cases b <;> exact hb

theorem removeTry_removeFromRuntime_iff {c : RemoveCall} {t : Server}
    (hkey : c.publicKey = some publicKey) (hne : publicKey ≠ []) (hpeers : t.peers = s.peers)
    (hconfig : wroteConfig = false → t.config = s.config) :
    RemoveTry c a s (removeFromRuntime c a publicKey) (t, ⟨wroteConfig, false⟩) ↔
      RemovalRight a s publicKey wroteConfig t.config := by
  have hremoved (message : Text) (hmessage : ¬rollbackWords <:+: message) :
      Ends (removeExcept a s.config message ⟨wroteConfig, false⟩) (fun _ s' => Gone c s s')
        (fun f s' => f.Silent → s' = s) (a.remove.apply (Server.without publicKey) t) ↔
      ((wroteConfig = true → a.restore = none) → a.remove.Effective → s.peers publicKey = false) := by
    rw [ends_removeExcept hmessage, removeRolledBack_removed hpeers hconfig]
    simp
  unfold RemoveTry RemovalRight removeFromRuntime
  rw [ends_bind, ends_insist, removePeerRuntime, ends_change]
  cases hends : a.remove.ends with
  | raised =>
    rw [hremoved _ a.quiet]
    simp [Answer.Effective, hends]
  | failed =>
    have hfailed := hremoved "Не удалось удалить AWG peer из runtime".toList (by decide +kernel)
    simp only [reduceCtorEq, false_imp_iff, true_and, and_true, forall_const, if_false]
    refine hfailed.trans ?_
    simp [Answer.Effective, hends]
  | ok =>
    have heffective : a.remove.Effective := .inl hends
    have happly : a.remove.apply (Server.without publicKey) t = t.without publicKey := if_pos heffective
    have hgone : (t.without publicKey).peers publicKey = false := Function.update_self _ _ _
    simp only [reduceCtorEq, false_imp_iff, true_and, forall_const, if_true, happly]
    rw [ends_bind, ends_setRuntime, ends_bind, ends_insist, ends_map, ends_checkRuntimePeer, hgone,
      Bool.and_false, Bool.not_false]
    dsimp only
    rw [ends_removeExcept a.quiet, removeRolledBack_synced (t := t.without publicKey) hconfig]
    by_cases hshown : a.shown .after = .raised
    · simp [hshown, NotFound]
    · have hcheck := removeTry_checkConfig_iff (c := c) (s := s) (t := t.without publicKey)
        "AWG peer удалён из runtime, но всё ещё найден в config".toList (by decide +kernel) hkey hne hgone
        hconfig hshown
      simp only [hshown, false_imp_iff, true_and, ne_eq, not_false_eq_true, forall_const, if_true]
      exact hcheck

/-- What the part on the runtime is answered; without a key, no peer that has gone from the config may be in the
runtime. -/
def RuntimeRight (c : RemoveCall) (a : Answers) (s : Server) (wroteConfig : Bool) (config : Text) : Prop :=
  match c.publicKey with
  | some publicKey => RemovalRight a s publicKey wroteConfig config
  | none => ∀ publicKey, HasPeer s.config publicKey → ¬HasPeer config publicKey → s.peers publicKey = false

theorem ne_nil_of_validateWireguardKey (h : validateWireguardKey publicKey = true) : publicKey ≠ [] := by
  rintro rfl
  exact absurd h (by decide)

theorem removeTry_removeIfKeyed_iff {c : RemoveCall} {field : Text} {t : Server}
    (hcheck : checkKey field c.publicKey = .ok ()) (hpeers : t.peers = s.peers)
    (hconfig : wroteConfig = false → t.config = s.config) :
    RemoveTry c a s (removeIfKeyed c a) (t, ⟨wroteConfig, false⟩) ↔ RuntimeRight c a s wroteConfig t.config := by
  cases hkey : c.publicKey with
  | none =>
    unfold RemoveTry removeIfKeyed RuntimeRight Gone
    simp only [hkey, ends_pure, hpeers]
  | some publicKey =>
    rw [hkey] at hcheck
    have hne := ne_nil_of_validateWireguardKey (validateWireguardKey_of_checkKey hcheck)
    unfold removeIfKeyed RuntimeRight
    simp only [hkey]
    exact removeTry_removeFromRuntime_iff hkey hne hpeers hconfig

/-- What `remove_peer` is answered once it has the config without the peer. -/
def UpdatedRight (c : RemoveCall) (a : Answers) (s : Server) (updated : Text) : Prop :=
  if updated = Warp.universalNewlines s.config then RuntimeRight c a s false s.config
  else Candidate a updated →
    a.write = some .before ∨ a.write = some .after ∧ updated = s.config ∨
      a.write = none ∧ RuntimeRight c a s true updated

theorem removeTry_write_iff {c : RemoveCall} {field : Text} (updated : Text)
    (hcheck : checkKey field c.publicKey = .ok ()) :
    RemoveTry c a s
      (do
        onServer (writeConfig a updated)
        setWroteConfig
        removeIfKeyed c a) (s, ⟨false, false⟩) ↔
    a.write = some .before ∨ a.write = some .after ∧ updated = s.config ∨
      a.write = none ∧ RuntimeRight c a s true updated := by
  have hwritten := removeTry_removeIfKeyed_iff (a := a) (s := s) (t := { s with config := updated }) hcheck rfl
    fun h : true = false => nomatch h
  unfold RemoveTry at *
  rw [ends_bind, ends_onServer, writeConfig, ends_call]
  rcases a.write with _ | (_ | _)
  · dsimp only
    rw [ends_bind, ends_setWroteConfig]
    exact hwritten.trans (by simp)
  · exact iff_of_true ends_removeExcept_untouched (.inl rfl)
  · dsimp only
    rw [ends_removeExcept a.quiet]
    simp [removeRolledBack, backInPlace, Server.ext_iff]

theorem removeTry_updated_iff {c : RemoveCall} {field updated : Text}
    (hcheck : checkKey field c.publicKey = .ok ()) :
    RemoveTry c a s
      (do
        writeUpdated a (Warp.universalNewlines s.config) updated
        removeIfKeyed c a) (s, ⟨false, false⟩) ↔
    UpdatedRight c a s updated := by
  have huntouched (e : Text) : Ends (removeExcept a s.config e ⟨false, false⟩) (fun _ s' => Gone c s s')
      (fun f s' => f.Silent → s' = s) s := ends_removeExcept_untouched
  have hidle := removeTry_removeIfKeyed_iff (a := a) (s := s) (t := s) hcheck rfl fun _ : false = false => rfl
  have hwrite := removeTry_write_iff (a := a) (s := s) updated hcheck
  unfold RemoveTry at *
  unfold writeUpdated UpdatedRight
  rw [ends_bind]
  split_ifs with hsame
  · exact hidle
  rw [ends_bind, ends_onServer, ends_validateCandidateConfig huntouched, ends_bind, ends_onServer,
    ends_guardSite, ends_bind]
  rw [ends_bind] at hwrite
  constructor
  · rintro h ⟨hparses, hstrip, hagain⟩
    exact hwrite.mp ((h hparses hstrip).2 hagain)
  · intro h hparses hstrip
    exact ⟨fun _ => huntouched _, fun hagain => hwrite.mpr (h ⟨hparses, hstrip, hagain⟩)⟩

/-- What `remove_peer` must be answered. -/
def RemoveRight (c : RemoveCall) (a : Answers) (s : Server) : Prop :=
  checkKey "AWG public_key".toList c.publicKey = .ok () → Opens a →
    ∀ updated, c.updated (Warp.universalNewlines s.config) = .ok updated → UpdatedRight c a s updated

theorem removeAtomic_iff (c : RemoveCall) (a : Answers) (s : Server) :
    RemoveAtomic c a s ↔ RemoveRight c a s := by
  have hprelude (f : Failure) : f.Silent → s = s := fun _ => rfl
  have huntouched (e : Text) : Ends (removeExcept a s.config e ⟨false, false⟩) (fun _ s' => Gone c s s')
      (fun f s' => f.Silent → s' = s) s := ends_removeExcept_untouched
  unfold RemoveAtomic removePeer
  rw [ends_bind, ends_outsideTry, ends_ofResult]
  refine (and_iff_left fun e _ _ => rfl).trans ⟨fun h hcheck hopens updated hupdated => ?_, fun h _ hcheck => ?_⟩
  · have hbody := h () hcheck
    rw [ends_bind, ends_openConfig hprelude] at hbody
    have htry := hbody hopens.lock hopens.active hopens.snapshot hopens.createBackup
    rw [ends_tryBody] at htry
    unfold removeBody at htry
    rw [ends_bind, ends_onServer, ends_readText] at htry
    have hread := htry.2 hopens.read
    rw [ends_bind, ends_onServer, ends_guardSite] at hread
    have hunchanged := hread.2 hopens.unchanged
    rw [ends_bind, ends_onServer, ends_ofResult] at hunchanged
    exact (removeTry_updated_iff hcheck).mp (hunchanged.1 updated hupdated)
  · rw [ends_bind, ends_openConfig hprelude]
    intro hlock hactive hsnapshot hbackup
    rw [ends_tryBody]
    unfold removeBody
    rw [ends_bind, ends_onServer, ends_readText]
    refine ⟨fun _ => huntouched _, fun hread => ?_⟩
    rw [ends_bind, ends_onServer, ends_guardSite]
    refine ⟨fun _ => huntouched _, fun hunchanged => ?_⟩
    rw [ends_bind, ends_onServer, ends_ofResult]
    exact ⟨fun updated hupdated => (removeTry_updated_iff hcheck).mpr
      (h hcheck ⟨hlock, hactive, hsnapshot, hbackup, hread, hunchanged⟩ updated hupdated),
      fun e _ => huntouched e⟩

/-! ### Both methods -/

/-- A call of one of the two methods. -/
inductive PeerCall
  | add (call : AddCall)
  | remove (call : RemoveCall)

/-- The call ends well, or leaves all as it was, or says that the rollback has failed. -/
def PeerCall.Atomic : PeerCall → Answers → Server → Prop
  | .add call => AddAtomic call
  | .remove call => RemoveAtomic call

/-- What the call must be answered. -/
def PeerCall.Right : PeerCall → Answers → Server → Prop
  | .add call => AddRight call
  | .remove call => RemoveRight call

theorem atomic_iff_right (call : PeerCall) (a : Answers) (s : Server) :
    call.Atomic a s ↔ call.Right a s := by
  cases call with
  | add call => exact addAtomic_iff call a s
  | remove call => exact removeAtomic_iff call a s

/-! ### A peer that stays -/

theorem not_addAtomic
    (h : (match addPeer c a s with
      | .ok _ _ => false
      | .error f s' => decide (f.steps = []) && decide (¬rollbackWords <:+: f.primary) &&
          decide (s'.peers c.publicKey ≠ s.peers c.publicKey)) = true) : ¬AddAtomic c a s := by
  intro hatomic
  unfold AddAtomic Ends at hatomic
  cases hrun : addPeer c a s with
  | ok _ _ =>
    rw [hrun] at h
    cases h
  | error f s' =>
    rw [hrun] at h hatomic
    simp only [Bool.and_eq_true, decide_eq_true_eq] at h
    have hsilent : f.Silent := (silent_iff h.1.2).mpr h.1.1
    exact h.2 (by rw [hatomic hsilent])

def addNewPeer : AddCall :=
  ⟨⟨fun t => t = "10.8.0.2".toList, fun _ _ => false⟩, "awg0".toList, 1, 2,
    "q83vEjRWeJCrze8SNFZ4kKvN7xI0VniQq83vEjRWeJA=".toList, none, "10.8.0.2".toList, none⟩

/-- The last `show` fails, and so does the command that takes the peer out again. -/
def showFails : Answers where
  raises _ := false
  shown site := if site = .after then .failed else .printed false
  set := ⟨.ok, false⟩
  remove := ⟨.failed, false⟩
  synced _ _ := false
  sync := none
  write := none
  restore := none
  text := []
  quiet := by decide

/-- An interface without peers. -/
def noPeers : Server := ⟨"[Interface]\nListenPort = 51820\n".toList, fun _ => false⟩

/-- The peer stays in the runtime, and the error does not say so. -/
theorem addNewPeer_stays : ¬ ∀ (call : PeerCall) (a : Answers) (s : Server), call.Atomic a s := by
  refine not_forall.mpr ⟨.add addNewPeer, not_forall.mpr ⟨showFails, not_forall.mpr ⟨noPeers, ?_⟩⟩⟩
  exact not_addAtomic (by decide +kernel)

end VpnBot.Awg
