import VpnBot.Python.JsonLoads
import VpnBot.System.Calls
import VpnBot.System.Run

/-!
# The apply helpers and the staged file

`src/deploy/helpers/vpn-bot-awg-apply` and `src/deploy/helpers/vpn-bot-xray-apply`, one step for each place where a run
opens the staged file or changes the canonical config, with writes of the bot user anywhere in between.  A
`Helper` has the checks, each of which opens the file again, and what the service runs afterwards.

A run opens the file once more to install it.  What it installs is what it has checked when every opening
finds the text of the first one, and the commands of `awg-quick` stay when the installed file has those of the
canonical config (`applyHelpers_of_steady`); nothing in the helpers makes sure of either (`hook_installed`).
-/

namespace VpnBot.Deploy

open Py Sys

/-! ### The data -/

/-- What stands at the path of the candidate: nothing that can be read, a link to a file, or a file. -/
inductive Staged
  | unreadable
  | link (t : Text)
  | file (t : Text)

/-- What a reader gets, who follows links or does not. -/
def Staged.opened (follows : Bool) : Staged → Option Text
  | .unreadable => none
  | .link t => if follows then some t else none
  | .file t => some t

structure Check where
  follows : Bool
  accepts : Text → Bool

/-- An apply helper: the checks of a candidate, and what the service runs, from the texts that the checks have
read and the installed one. -/
structure Helper where
  checks : List Check
  runs : List Text → Text → Text

/-- `vpn-bot-awg-apply`: the check is `quick_strip`, and its output goes to `syncconf`. -/
def awgApply (strip : Text → Option Text) : Helper where
  checks := [⟨false, fun t => (strip t).isSome⟩]
  runs passed _ := (passed.head?.bind strip).getD []

/-- `validate_json`, where the interpreter lets the decoder open `limit` containers. -/
def validateJson (limit : ℕ) (t : Text) : Bool :=
  match Json.loads limit t with
  | .ok data => data.isObj
  | .error _ => false

/-- `vpn-bot-xray-apply`: `xray -test` opens the path itself, and the service reads the installed file. -/
def xrayApply (limit : ℕ) (xrayTest : Text → Bool) : Helper where
  checks := [⟨false, validateJson limit⟩, ⟨true, xrayTest⟩]
  runs _ installed := installed

/-- Where a run is; `passed` are the texts that the checks have read.  A run that has exited with 0 keeps
them. -/
inductive Phase
  | idle
  | checking (passed : List Text) (remaining : List Check)
  | installing (passed : List Text) (backup : Option Text)
  | activating (passed : List Text) (backup : Option Text)
  | restoring (backup : Option Text)
  | reactivating (backup : Option Text)
  | exited (passed : Option (List Text))

/-- The staged file, the canonical config, what the service runs, and the run of the helper. -/
structure HelperState where
  staged : Staged
  canonical : Option Text
  runtime : Option Text
  phase : Phase

/-- No run yet. -/
def HelperState.idle (staged : Staged) (canonical runtime : Option Text) : HelperState :=
  ⟨staged, canonical, runtime, .idle⟩

/-- The bot user writes the staged file, a run starts, or the run makes its next call, which may fail. -/
inductive HelperEvent
  | write (staged : Staged)
  | start
  | call (fault : Option CallFault)

/-! ### The steps -/

/-- The start of a run: `validate_candidate_path`. -/
def Helper.startPhase (h : Helper) : Staged → Phase
  | .file _ => .checking [] h.checks
  | _ => .exited none

/-- A check opens the file. -/
def checkPhase (passed : List Text) (check : Check) (remaining : List Check) (staged : Staged)
    (fault : Option CallFault) : Phase :=
  match staged.opened check.follows, fault with
  | some t, none => if check.accepts t then .checking (passed ++ [t]) remaining else .exited none
  | _, _ => .exited none

/-- `install_candidate`, which opens the file again. -/
def installStep (passed : List Text) (backup : Option Text) (s : HelperState) (fault : Option CallFault) :
    HelperState :=
  match s.staged.opened false, fault with
  | some t, none => { s with canonical := some t, phase := .activating passed backup }
  | some t, some .after => { s with canonical := some t, phase := .restoring backup }
  | _, _ => { s with phase := .restoring backup }

/-- `sync_runtime`, or `restart_and_verify`. -/
def Helper.activateStep (h : Helper) (passed : List Text) (backup : Option Text) (s : HelperState) :
    Option CallFault → HelperState
  | none => { s with runtime := s.canonical.map (h.runs passed), phase := .exited (some passed) }
  | some .before => { s with phase := .restoring backup }
  | some .after => { s with runtime := s.canonical.map (h.runs passed), phase := .restoring backup }

/-- `restore_backup`: the backup comes back, or the config goes if there was none. -/
def restoreStep (backup : Option Text) (s : HelperState) : Option CallFault → HelperState
  | none => { s with canonical := backup, phase := .reactivating backup }
  | some .before => { s with phase := .exited none }
  | some .after => { s with canonical := backup, phase := .exited none }

/-- The service gets the restored config; the run fails in every case. -/
def Helper.reactivateStep (h : Helper) (backup : Option Text) (s : HelperState) : Option CallFault → HelperState
  | some .before => { s with phase := .exited none }
  | _ => { s with
      runtime := (backup.map fun t => h.runs [t] t).or s.runtime
      phase := .exited none }

/-- The next call of a run. -/
def Helper.callStep (h : Helper) (s : HelperState) (fault : Option CallFault) : Option HelperState :=
  match s.phase with
  | .idle => none
  | .checking passed (check :: remaining) =>
    some { s with phase := checkPhase passed check remaining s.staged fault }
  | .checking passed [] =>
    some { s with phase := if fault = none then .installing passed s.canonical else .exited none }
  | .installing passed backup => some (installStep passed backup s fault)
  | .activating passed backup => some (h.activateStep passed backup s fault)
  | .restoring backup => some (restoreStep backup s fault)
  | .reactivating backup => some (h.reactivateStep backup s fault)
  | .exited _ => none

/-- One step; a run starts when there is none. -/
def Helper.step (h : Helper) (s : HelperState) : HelperEvent → Option HelperState
  | .write staged => some { s with staged }
  | .start =>
    match s.phase with
    | .idle | .exited _ => some { s with phase := h.startPhase s.staged }
    | _ => none
  | .call fault => h.callStep s fault

/-! ### What a run has read -/

variable {h : Helper} {s s' : HelperState} {e : HelperEvent} {passed : List Text} {t : Text}
  {checks : List Check} {backup : Option Text}

/-- The checks have all read this text and accepted it. -/
def PassedOn (checks : List Check) (passed : List Text) (t : Text) : Prop :=
  List.Forall₂ (fun check _ => check.accepts t = true) checks passed ∧ ∀ t' ∈ passed, t' = t

/-- What holds of a run that has opened one text only. -/
def OneText (h : Helper) (s : HelperState) : Prop :=
  match s.phase with
  | .checking passed remaining => ∃ made t, h.checks = made ++ remaining ∧ PassedOn made passed t
  | .installing passed _ => ∃ t, PassedOn h.checks passed t
  | .activating passed _ => ∃ t, PassedOn h.checks passed t ∧ s.canonical = some t
  | .exited (some passed) =>
    ∃ t, PassedOn h.checks passed t ∧ s.canonical = some t ∧ s.runtime = some (h.runs passed t)
  | _ => True

/-- The call opens the text that the run has opened before. -/
def Steady (s : HelperState) : HelperEvent → Prop
  | .call _ =>
    match s.phase with
    | .checking passed (check :: _) => ∀ t, s.staged.opened check.follows = some t → ∀ t' ∈ passed, t' = t
    | .installing passed _ => ∀ t, s.staged.opened false = some t → ∀ t' ∈ passed, t' = t
    | _ => True
  | _ => True

theorem passedOn_of_forall {t' : Text} (hpassed : PassedOn checks passed t) (hsame : ∀ u ∈ passed, u = t') :
    PassedOn checks passed t' := by
  refine ⟨?_, hsame⟩
  obtain ⟨haccepts, hread⟩ := hpassed
  cases haccepts with
  | nil => exact .nil
  | @cons check u checks passed hcheck hrest =>
    have htext : t = t' := (hread u List.mem_cons_self).symm.trans (hsame u List.mem_cons_self)
    subst htext
    exact .cons hcheck hrest

theorem PassedOn.concat {check : Check} (hpassed : PassedOn checks passed t) (haccepts : check.accepts t = true) :
    PassedOn (checks ++ [check]) (passed ++ [t]) t := by
  refine ⟨List.rel_append hpassed.1 (.cons haccepts .nil), fun u hu => ?_⟩
  rcases List.mem_append.mp hu with hu | hu
  · exact hpassed.2 u hu
  · exact List.mem_singleton.mp hu

theorem oneText_check {made remaining : List Check} {check : Check} {fault : Option CallFault}
    (hchecks : h.checks = made ++ check :: remaining) (hpassed : PassedOn made passed t)
    (hsteady : ∀ t, s.staged.opened check.follows = some t → ∀ t' ∈ passed, t' = t) :
    OneText h { s with phase := checkPhase passed check remaining s.staged fault } := by
  unfold checkPhase
  cases hopened : s.staged.opened check.follows with
  | none => exact trivial
  | some u =>
    cases fault with
    | some _ => exact trivial
    | none =>
      dsimp only
      split_ifs with haccepts
      · have hread := passedOn_of_forall hpassed (hsteady u hopened)
        exact ⟨made ++ [check], u, by simp [hchecks], hread.concat haccepts⟩
      · exact trivial

theorem oneText_install {fault : Option CallFault} (hpassed : PassedOn h.checks passed t)
    (hsteady : ∀ t, s.staged.opened false = some t → ∀ t' ∈ passed, t' = t) :
    OneText h (installStep passed backup s fault) := by
  unfold installStep
  cases hopened : s.staged.opened false with
  | none => exact trivial
  | some u =>
    have hread := passedOn_of_forall hpassed (hsteady u hopened)
    rcases fault with _ | (_ | _)
    · exact ⟨u, hread, rfl⟩
    · exact trivial
    · exact trivial

theorem oneText_call {fault : Option CallFault} (hone : OneText h s) (hsteady : Steady s (.call fault))
    (hstep : h.callStep s fault = some s') : OneText h s' := by
  unfold Helper.callStep at hstep
  unfold OneText at hone
  unfold Steady at hsteady
  split at hstep
  case h_1 | h_8 => cases hstep
  case h_2 passed check remaining hphase =>
    cases hstep
    rw [hphase] at hone hsteady
    obtain ⟨made, t, hchecks, hpassed⟩ := hone
    exact oneText_check hchecks hpassed hsteady
  case h_3 passed hphase =>
    cases hstep
    rw [hphase] at hone
    obtain ⟨made, t, hchecks, hpassed⟩ := hone
    split_ifs
    · rw [List.append_nil] at hchecks
      exact ⟨t, hchecks ▸ hpassed⟩
    · exact trivial
  case h_4 passed backup hphase =>
    cases hstep
    rw [hphase] at hone hsteady
    obtain ⟨t, hpassed⟩ := hone
    exact oneText_install hpassed hsteady
  case h_5 passed backup hphase =>
    cases hstep
    rw [hphase] at hone
    obtain ⟨t, hpassed, hcanonical⟩ := hone
    rcases fault with _ | (_ | _)
    · have hruns : s.canonical.map (h.runs passed) = some (h.runs passed t) := by
        rw [hcanonical]
        rfl
      exact ⟨t, hpassed, hcanonical, hruns⟩
    · exact trivial
    · exact trivial
  case h_6 | h_7 =>
    cases hstep
    rcases fault with _ | (_ | _) <;> exact trivial

theorem oneText_step (hone : OneText h s) (hsteady : Steady s e) (hstep : h.step s e = some s') :
    OneText h s' := by
  cases e with
  | write staged =>
    cases hstep
    exact hone
  | start =>
    unfold Helper.step at hstep
    have hstart : OneText h { s with phase := h.startPhase s.staged } := by
      unfold Helper.startPhase
      cases s.staged with
      | file t => exact ⟨[], t, rfl, .nil, fun _ h => absurd h List.not_mem_nil⟩
      | unreadable | link _ => exact trivial
    cases hphase : s.phase with
    | idle | exited passed =>
      rw [hphase] at hstep
      cases hstep
      exact hstart
    | checking _ _ | installing _ _ | activating _ _ | restoring _ | reactivating _ =>
      rw [hphase] at hstep
      cases hstep
  | call fault => exact oneText_call hone hsteady hstep

/-! ### The commands -/

/-- The reading of the commands that `awg-quick` runs as root, `PreUp`, `PostUp`, `PreDown` and `PostDown`. -/
abbrev HookOptions := Text → List (Text × Text)

def commandsOf (hookOptions : HookOptions) (config : Option Text) : List (Text × Text) := config.elim [] hookOptions

/-- The config, and the backup that a run may put back, have these commands. -/
def HasCommands (hookOptions : HookOptions) (commands : List (Text × Text)) (s : HelperState) : Prop :=
  commandsOf hookOptions s.canonical = commands ∧
    match s.phase with
    | .installing _ backup | .activating _ backup | .restoring backup | .reactivating backup =>
      commandsOf hookOptions backup = commands
    | _ => True

/-- The file that is installed has the commands of the config in its place. -/
def KeepsCommands (hookOptions : HookOptions) (s : HelperState) : HelperEvent → Prop
  | .call _ =>
    match s.phase with
    | .installing _ _ => ∀ t, s.staged.opened false = some t → hookOptions t = commandsOf hookOptions s.canonical
    | _ => True
  | _ => True

variable {hookOptions : HookOptions} {commands : List (Text × Text)}

theorem hasCommands_install {fault : Option CallFault} (hcanonical : commandsOf hookOptions s.canonical = commands)
    (hbackup : commandsOf hookOptions backup = commands)
    (hkeeps : ∀ t, s.staged.opened false = some t → hookOptions t = commandsOf hookOptions s.canonical) :
    HasCommands hookOptions commands (installStep passed backup s fault) := by
  unfold installStep
  cases hopened : s.staged.opened false with
  | none => exact ⟨hcanonical, hbackup⟩
  | some t =>
    have hinstalled : commandsOf hookOptions (some t) = commands := (hkeeps t hopened).trans hcanonical
    rcases fault with _ | (_ | _)
    · exact ⟨hinstalled, hbackup⟩
    · exact ⟨hcanonical, hbackup⟩
    · exact ⟨hinstalled, hbackup⟩

theorem hasCommands_call {fault : Option CallFault} (hcommands : HasCommands hookOptions commands s)
    (hkeeps : KeepsCommands hookOptions s (.call fault)) (hstep : h.callStep s fault = some s') :
    HasCommands hookOptions commands s' := by
  obtain ⟨hcanonical, hbackup⟩ := hcommands
  unfold Helper.callStep at hstep
  unfold KeepsCommands at hkeeps
  split at hstep
  case h_1 | h_8 => cases hstep
  case h_2 passed check remaining hphase =>
    cases hstep
    unfold checkPhase
    cases s.staged.opened check.follows with
    | none => exact ⟨hcanonical, trivial⟩
    | some t =>
      cases fault with
      | some _ => exact ⟨hcanonical, trivial⟩
      | none =>
        refine ⟨hcanonical, ?_⟩
        dsimp only
        by_cases haccepts : check.accepts t = true
        · rw [if_pos haccepts]
          trivial
        · rw [if_neg haccepts]
          trivial
  case h_3 passed hphase =>
    cases hstep
    split_ifs
    · exact ⟨hcanonical, hcanonical⟩
    · exact ⟨hcanonical, trivial⟩
  case h_4 passed backup hphase =>
    cases hstep
    rw [hphase] at hbackup hkeeps
    exact hasCommands_install hcanonical hbackup hkeeps
  case h_5 passed backup hphase =>
    cases hstep
    rw [hphase] at hbackup
    rcases fault with _ | (_ | _)
    · exact ⟨hcanonical, trivial⟩
    · exact ⟨hcanonical, hbackup⟩
    · exact ⟨hcanonical, hbackup⟩
  case h_6 backup hphase =>
    cases hstep
    rw [hphase] at hbackup
    rcases fault with _ | (_ | _)
    · exact ⟨hbackup, hbackup⟩
    · exact ⟨hcanonical, trivial⟩
    · exact ⟨hbackup, trivial⟩
  case h_7 backup hphase =>
    cases hstep
    rcases fault with _ | (_ | _) <;> exact ⟨hcanonical, trivial⟩

theorem hasCommands_step (hcommands : HasCommands hookOptions commands s) (hkeeps : KeepsCommands hookOptions s e)
    (hstep : h.step s e = some s') : HasCommands hookOptions commands s' := by
  cases e with
  | write staged =>
    cases hstep
    exact hcommands
  | start =>
    unfold Helper.step at hstep
    have hstart : HasCommands hookOptions commands { s with phase := h.startPhase s.staged } := by
      refine ⟨hcommands.1, ?_⟩
      unfold Helper.startPhase
      cases s.staged <;> exact trivial
    cases hphase : s.phase with
    | idle | exited passed =>
      rw [hphase] at hstep
      cases hstep
      exact hstart
    | checking _ _ | installing _ _ | activating _ _ | restoring _ | reactivating _ =>
      rw [hphase] at hstep
      cases hstep
  | call fault => exact hasCommands_call hcommands hkeeps hstep

/-! ### Runs -/

/-- After a run of `vpn-bot-awg-apply` that exits with 0, the config is the one text that the run has checked,
and the runtime has been synced from the strip of it. -/
def AwgExit (strip : Text → Option Text) (s : HelperState) : Prop :=
  ∀ passed, s.phase = .exited (some passed) →
    ∃ t stripped, s.canonical = some t ∧ passed = [t] ∧ strip t = some stripped ∧ s.runtime = some stripped

/-- After a run of `vpn-bot-xray-apply` that exits with 0, the config is the one text that both checks have
read. -/
def XrayExit (limit : ℕ) (xrayTest : Text → Bool) (s : HelperState) : Prop :=
  ∀ passed, s.phase = .exited (some passed) →
    ∃ t, s.canonical = some t ∧ passed = [t, t] ∧ validateJson limit t = true ∧ xrayTest t = true

theorem awgExit_of_oneText {strip : Text → Option Text} (hone : OneText (awgApply strip) s) :
    AwgExit strip s := by
  intro passed hphase
  unfold OneText at hone
  rw [hphase] at hone
  obtain ⟨t, ⟨hchecks, hread⟩, hcanonical, hruntime⟩ := hone
  cases hchecks with
  | @cons _ u _ rest haccepts hrest =>
    cases hrest
    obtain rfl : u = t := hread u List.mem_cons_self
    obtain ⟨stripped, hstrip⟩ := Option.isSome_iff_exists.mp haccepts
    refine ⟨u, stripped, hcanonical, rfl, hstrip, ?_⟩
    rw [hruntime]
    simp [awgApply, hstrip]

theorem xrayExit_of_oneText {limit : ℕ} {xrayTest : Text → Bool} (hone : OneText (xrayApply limit xrayTest) s) :
    XrayExit limit xrayTest s := by
  intro passed hphase
  unfold OneText at hone
  rw [hphase] at hone
  obtain ⟨t, ⟨hchecks, hread⟩, hcanonical, -⟩ := hone
  cases hchecks with
  | @cons _ u _ rest hjson hrest =>
    cases hrest with
    | @cons _ v _ rest htest hrest =>
      cases hrest
      obtain rfl : u = t := hread u List.mem_cons_self
      obtain rfl : v = u := hread v (List.mem_cons_of_mem _ List.mem_cons_self)
      exact ⟨v, hcanonical, rfl, hjson, htest⟩

/-- **A run that opens one text only installs what it has checked**, and the commands of `awg-quick` stay when
each installed file has those of the config before it. -/
theorem applyHelpers_of_steady (strip : Text → Option Text) (hookOptions : HookOptions) (limit : ℕ)
    (xrayTest : Text → Bool) (staged : Staged) (canonical runtime : Option Text) (events : List HelperEvent)
    (s : HelperState) :
    (runFrom (awgApply strip).step (.idle staged canonical runtime) events = some s →
      (Allowed (awgApply strip).step Steady (.idle staged canonical runtime) events → AwgExit strip s) ∧
      (Allowed (awgApply strip).step (KeepsCommands hookOptions) (.idle staged canonical runtime) events →
        commandsOf hookOptions s.canonical = commandsOf hookOptions canonical)) ∧
    (runFrom (xrayApply limit xrayTest).step (.idle staged canonical runtime) events = some s →
      Allowed (xrayApply limit xrayTest).step Steady (.idle staged canonical runtime) events →
      XrayExit limit xrayTest s) := by
  have hone (h : Helper) : OneText h (.idle staged canonical runtime) := trivial
  have hcommands : HasCommands hookOptions (commandsOf hookOptions canonical) (.idle staged canonical runtime) :=
    ⟨rfl, trivial⟩
  refine ⟨fun hrun => ⟨fun hsteady => ?_, fun hkeeps => ?_⟩, fun hrun hsteady => ?_⟩
  · exact awgExit_of_oneText (invariant_of_allowed (fun _ _ _ => oneText_step) (hone _) hsteady hrun)
  · exact (invariant_of_allowed (fun _ _ _ => hasCommands_step) hcommands hkeeps hrun).1
  · exact xrayExit_of_oneText (invariant_of_allowed (fun _ _ _ => oneText_step) (hone _) hsteady hrun)

/-! ### A file that is written over -/

/-- A config without commands. -/
def plainConfig : Text := "[Interface]\nListenPort = 51820\n".toList

def hookConfig : Text := "[Interface]\nListenPort = 51820\nPostUp = reboot\n".toList

/-- `awg-quick strip`, on the two configs. -/
def stripHook (t : Text) : Option Text :=
  if t = plainConfig ∨ t = hookConfig then some plainConfig else none

/-- The commands of the two configs. -/
def hookOf (t : Text) : List (Text × Text) := if t = hookConfig then [("postup".toList, "reboot".toList)] else []

/-- The staged file of a run that nobody writes over. -/
def plainState (canonical runtime : Option Text) (phase : Phase) : HelperState :=
  ⟨.file plainConfig, canonical, runtime, phase⟩

theorem allowed_plainRun {P : HelperState → HelperEvent → Prop} (hstart : P (plainState none none .idle) .start)
    (hcheck : P (plainState none none (.checking [] (awgApply stripHook).checks)) (.call none))
    (hbackup : P (plainState none none (.checking [plainConfig] [])) (.call none))
    (hinstall : P (plainState none none (.installing [plainConfig] none)) (.call none))
    (hactivate : P (plainState (some plainConfig) none (.activating [plainConfig] none)) (.call none)) :
    Allowed (awgApply stripHook).step P (.idle (.file plainConfig) none none)
      [.start, .call none, .call none, .call none, .call none] := by
  refine allowed_cons_of_step hstart rfl (allowed_cons_of_step hcheck rfl ?_)
  exact allowed_cons_of_step hbackup rfl
    (allowed_cons_of_step hinstall rfl (allowed_cons_of_step hactivate rfl trivial))

theorem applyHelpers_of_steady_plain :
    AwgExit stripHook (plainState (some plainConfig) (some plainConfig) (.exited (some [plainConfig]))) ∧
      commandsOf hookOf (some plainConfig) = commandsOf hookOf none := by
  have hrun : runFrom (awgApply stripHook).step (.idle (.file plainConfig) none none)
      [.start, .call none, .call none, .call none, .call none] =
      some (plainState (some plainConfig) (some plainConfig) (.exited (some [plainConfig]))) := rfl
  obtain ⟨hexit, hcommands⟩ :=
    (applyHelpers_of_steady stripHook hookOf 0 (fun _ => true) (.file plainConfig) none none _ _).1 hrun
  refine ⟨hexit (allowed_plainRun trivial ?_ trivial ?_ trivial),
    hcommands (allowed_plainRun trivial trivial trivial ?_ trivial)⟩
  · exact fun _ _ _ h => absurd h List.not_mem_nil
  · rintro t ⟨⟩ u hu
    exact List.mem_singleton.1 hu
  · rintro t ⟨⟩
    decide +kernel

/-- The bot user writes the staged file over between the check and the installation. -/
def hookRun : List HelperEvent :=
  [.start, .call none, .write (.file hookConfig), .call none, .call none, .call none]

/-- The run installs a text that it has not checked, and with it a command for root. -/
theorem hook_installed : ¬ ∀ (strip : Text → Option Text) (hookOptions : HookOptions) (limit : ℕ)
    (xrayTest : Text → Bool) (staged : Staged) (canonical runtime : Option Text) (events : List HelperEvent)
    (s : HelperState),
    (runFrom (awgApply strip).step (.idle staged canonical runtime) events = some s →
      AwgExit strip s ∧ commandsOf hookOptions s.canonical = commandsOf hookOptions canonical) ∧
    (runFrom (xrayApply limit xrayTest).step (.idle staged canonical runtime) events = some s →
      XrayExit limit xrayTest s) := by
  intro h
  have hrun : runFrom (awgApply stripHook).step (.idle (.file plainConfig) (some plainConfig) none) hookRun =
      some ⟨.file hookConfig, some hookConfig, some plainConfig, .exited (some [plainConfig])⟩ := rfl
  obtain ⟨-, hcommands⟩ :=
    (h stripHook hookOf 0 (fun _ => true) (.file plainConfig) (some plainConfig) none hookRun _).1 hrun
  have hne : commandsOf hookOf (some hookConfig) ≠ commandsOf hookOf (some plainConfig) := by decide +kernel
  exact hne hcommands

end VpnBot.Deploy
